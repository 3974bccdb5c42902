import LambdaCalculus.Source.Excerpt
import Mathlib.Data.List.DropRight

/-!
# Locations

The table of a source holds the first offset of every line, in increasing order.
So the line of an offset, which is looked up in the table, is the number of line
feeds before the offset, and its column counts what stands between the last of
them and the offset.  Registering more sources changes no location.
-/

namespace LambdaCalculus

/-! ## The table of lines -/

theorem offsetsAfterLineFeeds_append
    (offset : Nat)
    (left right : Text) :
    offsetsAfterLineFeeds offset (left ++ right) =
      offsetsAfterLineFeeds offset left ++
        offsetsAfterLineFeeds (offset + left.length) right := by
  induction left generalizing offset with
  | nil => rfl
  | cons byte rest inductionHypothesis =>
      rw [List.length_cons, Nat.add_comm rest.length, ← Nat.add_assoc,
        List.cons_append, offsetsAfterLineFeeds, offsetsAfterLineFeeds,
        inductionHypothesis]
      split <;> rfl

theorem length_offsetsAfterLineFeeds
    (offset : Nat)
    (text : Text) :
    (offsetsAfterLineFeeds offset text).length = text.count lineFeed := by
  induction text generalizing offset with
  | nil => rfl
  | cons byte rest inductionHypothesis =>
      rw [offsetsAfterLineFeeds, List.count_cons]
      split <;> simp_all

theorem bounds_of_mem_offsetsAfterLineFeeds
    (member : start ∈ offsetsAfterLineFeeds offset text) :
    offset < start ∧ start ≤ offset + text.length := by
  induction text generalizing offset with
  | nil => cases member
  | cons byte rest inductionHypothesis =>
      rw [List.length_cons]
      rw [offsetsAfterLineFeeds] at member
      split at member
      next =>
          rcases List.mem_cons.mp member with rfl | later
          · omega
          · have bounds := inductionHypothesis later
            omega
      next =>
          have bounds := inductionHypothesis member
          omega

theorem pairwise_offsetsAfterLineFeeds
    (offset : Nat)
    (text : Text) :
    (offsetsAfterLineFeeds offset text).Pairwise (· < ·) := by
  induction text generalizing offset with
  | nil => exact List.Pairwise.nil
  | cons byte rest inductionHypothesis =>
      rw [offsetsAfterLineFeeds]
      split
      next =>
          apply List.Pairwise.cons
          · intro start member
            exact (bounds_of_mem_offsetsAfterLineFeeds member).1
          · exact inductionHypothesis (offset + 1)
      next => exact inductionHypothesis (offset + 1)

namespace Source

/-- The table is in increasing order. -/
theorem pairwise_lineStarts
    (source : Source) :
    source.lineStarts.Pairwise (· < ·) := by
  apply List.Pairwise.cons
  · intro start member
    exact (bounds_of_mem_offsetsAfterLineFeeds member).1
  · exact pairwise_offsetsAfterLineFeeds 0 source.text

theorem length_lineStarts
    (source : Source) :
    source.lineStarts.length = source.text.count lineFeed + 1 := by
  rw [lineStarts, List.length_cons, length_offsetsAfterLineFeeds]

/-- The part of the table that belongs to the text before an offset. -/
def startsBefore
    (source : Source)
    (offset : Nat) : List Nat :=
  0 :: offsetsAfterLineFeeds 0 (source.text.take offset)

/-- The part of the table that belongs to the text behind an offset. -/
def startsBehind
    (source : Source)
    (offset : Nat) : List Nat :=
  offsetsAfterLineFeeds (source.text.take offset).length
    (source.text.drop offset)

theorem startsBefore_append_startsBehind
    (source : Source)
    (offset : Nat) :
    source.startsBefore offset ++ source.startsBehind offset =
      source.lineStarts := by
  have table := offsetsAfterLineFeeds_append 0 (source.text.take offset)
    (source.text.drop offset)
  rw [List.take_append_drop, Nat.zero_add] at table
  rw [lineStarts, table]
  rfl

theorem length_startsBefore
    (source : Source)
    (offset : Nat) :
    (source.startsBefore offset).length =
      (source.text.take offset).count lineFeed + 1 := by
  rw [startsBefore, List.length_cons, length_offsetsAfterLineFeeds]

theorem le_of_mem_startsBefore
    {source : Source}
    (member : start ∈ source.startsBefore offset) :
    start ≤ offset := by
  rcases List.mem_cons.mp member with rfl | later
  · exact Nat.zero_le offset
  · have bounds := bounds_of_mem_offsetsAfterLineFeeds later
    rw [List.length_take] at bounds
    omega

theorem lt_of_mem_startsBehind
    {source : Source}
    (member : start ∈ source.startsBehind offset) :
    offset < start := by
  have bounds := bounds_of_mem_offsetsAfterLineFeeds member
  rw [List.length_take, List.length_drop] at bounds
  omega

/-- The line of an offset is the number of line feeds before it. -/
theorem lineAt_eq_count
    (source : Source)
    (offset : Nat) :
    source.lineAt offset = (source.text.take offset).count lineFeed := by
  have before : (source.startsBefore offset).countP (· ≤ offset) =
      (source.startsBefore offset).length :=
    List.countP_eq_length.mpr fun start member =>
      decide_eq_true (le_of_mem_startsBefore member)
  have behind : (source.startsBehind offset).countP (· ≤ offset) = 0 :=
    List.countP_eq_zero.mpr fun start member atMost =>
      Nat.not_le_of_lt (lt_of_mem_startsBehind member) (of_decide_eq_true atMost)
  rw [lineAt, ← source.startsBefore_append_startsBehind offset,
    List.countP_append, before, behind, length_startsBefore]
  omega

/-- The lines up to the one of an offset start at or before it, and the lines
behind it start behind the offset: a search of the sorted table for the first
greater entry stops one entry behind the line. -/
theorem start_le_iff_le_lineAt
    {source : Source}
    (found : source.lineStarts[line]? = some start)
    (offset : Nat) :
    start ≤ offset ↔ line ≤ source.lineAt offset := by
  have length := source.length_startsBefore offset
  rw [← source.startsBefore_append_startsBehind offset,
    List.getElem?_append] at found
  rw [lineAt_eq_count]
  split at found
  next inside =>
      have atMost := le_of_mem_startsBefore (List.mem_of_getElem? found)
      exact iff_of_true atMost (by omega)
  next outside =>
      have behind := lt_of_mem_startsBehind (List.mem_of_getElem? found)
      exact iff_of_false (by omega) (by omega)

end Source

/-! ## Lines -/

/-- A text is cut into what stands before a line, the line without its line feed,
and what stands behind it. -/
structure Text.CutsLine
    (before line behind : Text) : Prop where
  /-- The line starts the text or follows a line feed. -/
  starts : before = [] ∨ ∃ earlier, before = earlier ++ [lineFeed]
  /-- The line is a single one. -/
  single : lineFeed ∉ line
  /-- The line ends the text or a line feed follows it. -/
  ends : behind = [] ∨ ∃ later, behind = lineFeed :: later

namespace Text

/-- The bytes before the first line feed, and those from it on. -/
theorem exists_untilLineFeed
    (text : Text) :
    ∃ line behind, text = line ++ behind ∧ lineFeed ∉ line ∧
      (behind = [] ∨ ∃ later, behind = lineFeed :: later) := by
  induction text with
  | nil => exact ⟨[], [], rfl, List.not_mem_nil, .inl rfl⟩
  | cons byte rest inductionHypothesis =>
      by_cases isEnd : byte = lineFeed
      · exact ⟨[], byte :: rest, rfl, List.not_mem_nil,
          .inr ⟨rest, by rw [isEnd]⟩⟩
      · obtain ⟨line, behind, rfl, single, ends⟩ := inductionHypothesis
        refine ⟨byte :: line, behind, rfl, ?_, ends⟩
        simp only [List.mem_cons, not_or]
        exact ⟨Ne.symm isEnd, single⟩

/-- The bytes up to the last line feed, and those behind it. -/
theorem exists_sinceLineFeed
    (text : Text) :
    ∃ before line, text = before ++ line ∧ lineFeed ∉ line ∧
      (before = [] ∨ ∃ earlier, before = earlier ++ [lineFeed]) := by
  obtain ⟨line, behind, cut, single, ends⟩ := exists_untilLineFeed text.reverse
  refine ⟨behind.reverse, line.reverse, ?_, by simpa using single, ?_⟩
  · rw [← List.reverse_append, ← cut, List.reverse_reverse]
  · rcases ends with rfl | ⟨later, rfl⟩
    · exact .inl rfl
    · exact .inr ⟨later.reverse, List.reverse_cons⟩

/-- Every line number of a text is that of a line. -/
theorem exists_cutsLine_numbered
    (text : Text)
    (number : Nat)
    (bound : number ≤ text.count lineFeed) :
    ∃ before line behind,
      text = before ++ (line ++ behind) ∧ before.count lineFeed = number ∧
      CutsLine before line behind := by
  induction number generalizing text with
  | zero =>
      obtain ⟨line, behind, cut, single, ends⟩ := exists_untilLineFeed text
      exact ⟨[], line, behind, cut, List.count_nil, .inl rfl, single, ends⟩
  | succ number inductionHypothesis =>
      obtain ⟨first, behind, rfl, single, ends⟩ := exists_untilLineFeed text
      rw [List.count_append, List.count_eq_zero.mpr single] at bound
      rcases ends with rfl | ⟨later, rfl⟩
      · simp at bound
      · rw [List.count_cons_self] at bound
        obtain ⟨before, line, rest, rfl, counted, cuts⟩ :=
          inductionHypothesis later (by omega)
        refine ⟨first ++ lineFeed :: before, line, rest, by simp, ?_, ?_,
          cuts.single, cuts.ends⟩
        · rw [List.count_append, List.count_eq_zero.mpr single,
            List.count_cons_self, counted, Nat.zero_add]
        · rcases cuts.starts with rfl | ⟨earlier, rfl⟩
          · exact .inr ⟨first, rfl⟩
          · exact .inr ⟨first ++ lineFeed :: earlier, by simp⟩

/-- A text has one line more than it has line feeds. -/
theorem length_splitOn_lineFeed
    (text : Text) :
    (text.splitOn lineFeed).length = text.count lineFeed + 1 := by
  induction text with
  | nil => rfl
  | cons byte rest inductionHypothesis =>
      rw [List.splitOn_cons_eq_if_modifyHead, List.count_cons]
      split <;> simp_all

end Text

namespace Text.CutsLine

/-- What stands before a line is counted without the line. -/
theorem count_eq
    (cuts : CutsLine before (left ++ right) behind) :
    (before ++ left).count lineFeed = before.count lineFeed := by
  have absent : lineFeed ∉ left :=
    fun member => cuts.single (List.mem_append_left right member)
  rw [List.count_append, List.count_eq_zero.mpr absent, Nat.add_zero]

/-- The first part of a line is what follows the last line feed. -/
theorem rtakeWhile_eq
    (cuts : CutsLine before (left ++ right) behind) :
    (before ++ left).rtakeWhile (· != lineFeed) = left := by
  have passes : ∀ byte ∈ left.reverse, (byte != lineFeed) = true := by
    intro byte member
    rw [List.mem_reverse] at member
    rw [bne_iff_ne]
    rintro rfl
    exact cuts.single (List.mem_append_left right member)
  rw [List.rtakeWhile, List.reverse_append,
    List.takeWhile_append_of_pos passes]
  rcases cuts.starts with rfl | ⟨earlier, rfl⟩ <;> simp

variable {source : Source}

/-- A line starts behind what stands before it. -/
theorem lineStart_eq
    (cuts : CutsLine before line behind)
    (isText : source.text = before ++ (line ++ behind)) :
    source.lineStarts[before.count lineFeed]? = some before.length := by
  rw [Source.lineStarts, isText, offsetsAfterLineFeeds_append]
  rcases cuts.starts with rfl | ⟨earlier, rfl⟩
  · rfl
  · have place := length_offsetsAfterLineFeeds 0 earlier
    rw [offsetsAfterLineFeeds_append, List.count_append,
      List.count_singleton_self, List.getElem?_cons_succ, ← place]
    simp [offsetsAfterLineFeeds]

/-- The next line starts behind the line feed that ends a line. -/
theorem nextStart_eq
    (cuts : CutsLine before line behind)
    (isText : source.text = before ++ (line ++ behind)) :
    source.lineStarts[before.count lineFeed + 1]? =
      if behind = [] then none else some (before.length + line.length + 1) := by
  have place := length_offsetsAfterLineFeeds 0 before
  have none : offsetsAfterLineFeeds before.length line = [] := by
    rw [← List.length_eq_zero_iff, length_offsetsAfterLineFeeds,
      List.count_eq_zero.mpr cuts.single]
  rw [Source.lineStarts, isText, offsetsAfterLineFeeds_append,
    List.getElem?_cons_succ, ← place, Nat.zero_add,
    offsetsAfterLineFeeds_append, none]
  rcases cuts.ends with rfl | ⟨later, rfl⟩ <;>
    simp [offsetsAfterLineFeeds]

/-- A line is found under its number. -/
theorem lineText_eq
    (cuts : CutsLine before line behind)
    (isText : source.text = before ++ (line ++ behind)) :
    source.lineText (before.count lineFeed) = line := by
  have start : source.lineStart (before.count lineFeed) = before.length := by
    rw [Source.lineStart, List.getD_eq_getElem?_getD, cuts.lineStart_eq isText,
      Option.getD_some]
  rw [Source.lineText, cuts.nextStart_eq isText, start, isText]
  rcases cuts.ends with rfl | ⟨later, rfl⟩ <;> simp [Text.slice]

/-- The lines of a text are what its line feeds separate. -/
theorem getElem?_splitOn
    (cuts : CutsLine before line behind) :
    ((before ++ (line ++ behind)).splitOn lineFeed)[before.count lineFeed]? =
      some line := by
  have first : ((line ++ behind).splitOn lineFeed)[0]? = some line := by
    rcases cuts.ends with rfl | ⟨later, rfl⟩
    · rw [List.append_nil, List.splitOn_eq_singleton cuts.single]
      rfl
    · rw [List.splitOn_append_cons_self_of_not_mem cuts.single]
      rfl
  rcases cuts.starts with rfl | ⟨earlier, rfl⟩
  · exact first
  · rw [List.append_assoc, List.singleton_append, List.splitOn_append_cons_self,
      List.count_append, List.count_singleton_self,
      ← length_splitOn_lineFeed earlier, List.getElem?_append_right (Nat.le_refl _),
      Nat.sub_self, first]

end Text.CutsLine

/-! ## Locations -/

/-- The place that counting gives to the end of a text: one line for each line
feed and one column for each character behind the last of them. -/
def Location.ofSeen (seen : Text) : Location where
  line := 1 + seen.count lineFeed
  column := 1 + columns (seen.rtakeWhile (· != lineFeed))

/-- One location is at or before another: on an earlier line, or on the same line
and in no later column. -/
instance : LE Location where
  le left right :=
    left.line < right.line ∨ left.line = right.line ∧ left.column ≤ right.column

theorem Location.le_iff
    (left right : Location) :
    left ≤ right ↔
      left.line < right.line ∨
        left.line = right.line ∧ left.column ≤ right.column :=
  Iff.rfl

/-- Seeing more leads to no earlier place. -/
theorem Location.ofSeen_le_append
    (seen more : Text) :
    ofSeen seen ≤ ofSeen (seen ++ more) := by
  obtain ⟨before, line, cut, single, starts⟩ := Text.exists_sinceLineFeed seen
  rw [le_iff]
  simp only [ofSeen, List.count_append]
  by_cases ended : lineFeed ∈ more
  · have counted := List.count_pos_iff.mpr ended
    exact .inl (by omega)
  · have wholeLine : lineFeed ∉ line ++ more := by
      simp only [List.mem_append, not_or]
      exact ⟨single, ended⟩
    have cuts : Text.CutsLine before ((line ++ more) ++ []) [] :=
      ⟨starts, by rwa [List.append_nil], .inl rfl⟩
    have cutsShort : Text.CutsLine before (line ++ more) [] :=
      ⟨starts, wholeLine, .inl rfl⟩
    rw [cut, List.append_assoc, cuts.rtakeWhile_eq, cutsShort.rtakeWhile_eq,
      columns_append, List.count_eq_zero.mpr ended]
    exact .inr ⟨by omega, by omega⟩

namespace Source

/-- The place of an offset: its line, cut in two at the offset, and what stands
before and behind the line. -/
structure Place
    (source : Source)
    (offset : Nat) where
  /-- What stands before the line. -/
  before : Text
  /-- The part of the line before the offset. -/
  left : Text
  /-- The part of the line behind the offset. -/
  right : Text
  /-- What stands behind the line. -/
  behind : Text
  /-- The parts make up the text. -/
  text_eq : source.text = before ++ ((left ++ right) ++ behind)
  /-- The offset is where the line is cut in two. -/
  offset_eq : offset = before.length + left.length
  /-- The line is cut out at line feeds. -/
  cuts : Text.CutsLine before (left ++ right) behind

/-- Every offset in a text has a place. -/
theorem nonempty_place
    (source : Source)
    (bound : offset ≤ source.text.length) :
    Nonempty (source.Place offset) := by
  obtain ⟨before, left, seen, leftSingle, starts⟩ :=
    Text.exists_sinceLineFeed (source.text.take offset)
  obtain ⟨right, behind, unseen, rightSingle, ends⟩ :=
    Text.exists_untilLineFeed (source.text.drop offset)
  refine ⟨before, left, right, behind, ?_, ?_, starts, ?_, ends⟩
  · rw [← List.take_append_drop offset source.text, seen, unseen]
    simp only [List.append_assoc]
  · rw [← List.length_append, ← seen, List.length_take_of_le bound]
  · simp only [List.mem_append, not_or]
    exact ⟨leftSingle, rightSingle⟩

namespace Place

variable {source : Source}

/-- The number of the line, counted from zero. -/
def number (place : source.Place offset) : Nat :=
  place.before.count lineFeed

theorem take_eq
    (place : source.Place offset) :
    source.text.take offset = place.before ++ place.left := by
  have length : (place.before ++ place.left).length = offset := by
    rw [List.length_append, ← place.offset_eq]
  rw [place.text_eq, List.append_assoc, ← List.append_assoc]
  exact List.take_left' length

theorem number_eq
    (place : source.Place offset) :
    (source.text.take offset).count lineFeed = place.number := by
  rw [place.take_eq, place.cuts.count_eq, number]

theorem lineAt_eq
    (place : source.Place offset) :
    source.lineAt offset = place.number := by
  rw [lineAt_eq_count, place.number_eq]

theorem lineStarts_number
    (place : source.Place offset) :
    source.lineStarts[place.number]? = some place.before.length :=
  place.cuts.lineStart_eq place.text_eq

theorem lineStart_number
    (place : source.Place offset) :
    source.lineStart place.number = place.before.length := by
  rw [lineStart, List.getD_eq_getElem?_getD, place.lineStarts_number,
    Option.getD_some]

end Place

/-- The location of an offset counts the text before it. -/
theorem location_eq_ofSeen
    (source : Source)
    (offset : Nat) :
    source.location offset =
      Location.ofSeen (source.text.take (min offset source.text.length)) := by
  generalize clamps : min offset source.text.length = clamped
  obtain ⟨place⟩ : Nonempty (source.Place clamped) :=
    source.nonempty_place (by omega)
  have shown : source.text.slice place.before.length clamped = place.left := by
    rw [Text.slice, ← List.drop_take, place.take_eq, List.drop_left]
  rw [Location.ofSeen, place.take_eq, place.cuts.count_eq,
    place.cuts.rtakeWhile_eq, location]
  simp only [clamps, place.lineAt_eq, place.lineStart_number, shown,
    Location.mk.injEq]
  exact ⟨Nat.add_comm _ _, Nat.add_comm _ _⟩

/-- A later offset has no earlier location. -/
theorem location_mono
    (source : Source)
    (atMost : offset ≤ further) :
    source.location offset ≤ source.location further := by
  rw [location_eq_ofSeen, location_eq_ofSeen]
  obtain ⟨more, isLonger⟩ : source.text.take (min offset source.text.length) <+:
      source.text.take (min further source.text.length) :=
    List.take_prefix_take_left (by omega)
  rw [← isLonger]
  exact Location.ofSeen_le_append _ more

end Source

/-- Counting a text gives numbers that exceed its length by one at most. -/
theorem Location.ofSeen_le_length
    (seen : Text) :
    (ofSeen seen).line ≤ seen.length + 1 ∧
      (ofSeen seen).column ≤ seen.length + 1 := by
  have lineFeeds : seen.count lineFeed ≤ seen.length := List.count_le_length
  have lineLength :=
    (List.rtakeWhile_suffix (· != lineFeed) seen).length_le
  have characters : columns (seen.rtakeWhile (· != lineFeed)) ≤
      (seen.rtakeWhile (· != lineFeed)).length := List.countP_le_length
  simp only [ofSeen]
  omega

/-! ## Registered sources -/

namespace Sources

/-- Registers sources one after another. -/
def addAll
    (sources : Sources)
    (added : List Source) : Sources :=
  added.foldl (fun sources source => (sources.add source).2) sources

/-- The location of an offset in the source with a given number. -/
def location?
    (sources : Sources)
    (file offset : Nat) : Option Location :=
  sources[file]?.map fun source => source.location offset

/-- A source that is registered is found under its number. -/
theorem getElem?_add
    (sources : Sources)
    (source : Source) :
    (sources.add source).2[(sources.add source).1]? = some source :=
  List.getElem?_concat_length

/-- Registering a source keeps the numbers of the others. -/
theorem getElem?_add_of_some
    {sources : Sources}
    {file : Nat}
    (found : sources[file]? = some source)
    (other : Source) :
    (sources.add other).2[file]? = some source := by
  rw [add, List.getElem?_append_left]
  · exact found
  · exact (List.getElem?_eq_some_iff.mp found).1

theorem getElem?_addAll_of_some
    {sources : Sources}
    {file : Nat}
    (found : sources[file]? = some source)
    (added : List Source) :
    (sources.addAll added)[file]? = some source := by
  induction added generalizing sources with
  | nil => exact found
  | cons other added inductionHypothesis =>
      exact inductionHypothesis (getElem?_add_of_some found other)

/-- Whatever is registered before and after it, a source has the same locations
under its number: the line of an offset is one more than the line feeds before it,
and the column is one more than the characters between the last of them and the
offset.  Locations do not decrease while offsets grow, and both numbers are 32-bit
words.  The line is found by searching a sorted table for the first entry behind
the offset. -/
theorem location?_counts
    (earlier later : List Source)
    (source : Source)
    (short : source.text.length < lineNumberModulus - 1)
    (offset : Nat) :
    let registered := (addAll [] earlier).add source
    let sources := registered.2.addAll later
    let clamped := min offset source.text.length
    let seen := source.text.take clamped
    let location : Location :=
      ⟨1 + seen.count lineFeed,
        1 + columns (seen.rtakeWhile (· != lineFeed))⟩
    sources.location? registered.1 offset = some location ∧
    registered.2.location? registered.1 offset = some location ∧
    (∀ further, offset ≤ further ->
      ∃ next, sources.location? registered.1 further = some next ∧
        location ≤ next) ∧
    location.line < lineNumberModulus ∧ location.column < lineNumberModulus ∧
    source.lineStarts.Pairwise (· < ·) ∧
    ∀ line start, source.lineStarts[line]? = some start ->
      (start ≤ clamped ↔ line ≤ source.lineAt clamped) := by
  intro registered sources clamped seen location
  have counted : source.location offset = location :=
    source.location_eq_ofSeen offset
  have foundAtFirst : registered.2[registered.1]? = some source :=
    getElem?_add _ source
  have found : sources[registered.1]? = some source :=
    getElem?_addAll_of_some foundAtFirst later
  have located : ∀ place, sources.location? registered.1 place =
      some (source.location place) := by
    intro place
    rw [location?, found, Option.map_some]
  obtain ⟨lineBound, columnBound⟩ := Location.ofSeen_le_length seen
  have seenLength : seen.length ≤ source.text.length :=
    List.length_take_le' clamped source.text
  refine ⟨?_, ?_, ?_, ?_, ?_, source.pairwise_lineStarts, ?_⟩
  · rw [located, counted]
  · rw [location?, foundAtFirst, Option.map_some, counted]
  · intro further atMost
    refine ⟨_, located further, ?_⟩
    rw [← counted]
    exact source.location_mono atMost
  · exact Nat.lt_of_le_of_lt lineBound (by omega)
  · exact Nat.lt_of_le_of_lt columnBound (by omega)
  · intro line start found
    exact Source.start_le_iff_le_lineAt found clamped

/-- The `q` of `(λx:A→A.(λy.q))` is in column 13, because a lambda and an arrow take
one column each.  The byte behind the line feed is the first of the second line. -/
theorem location?_counts_arrow :
    let source : Source := ⟨"c.lc", "(λx:A→A.(λy.q))\nz"⟩
    let registered := (addAll [] [⟨"b.lc", "x\n"⟩]).add source
    let sources := registered.2.addAll [⟨"d.lc", []⟩]
    source.text.length < lineNumberModulus - 1 ∧
      registered.2.location? registered.1 16 = some ⟨1, 13⟩ ∧
      sources.location? registered.1 16 = some ⟨1, 13⟩ ∧
      sources.location? registered.1 20 = some ⟨2, 1⟩ := by
  intro source registered sources
  have short : source.text.length < lineNumberModulus - 1 := by decide
  have counts := location?_counts [⟨"b.lc", "x\n"⟩] [⟨"d.lc", []⟩] source short
  exact ⟨short, (counts 16).2.1, (counts 16).1, (counts 20).1⟩

end Sources
end LambdaCalculus
