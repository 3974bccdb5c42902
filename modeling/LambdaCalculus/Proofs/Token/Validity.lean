import LambdaCalculus.Proofs.Text.Encoding
import LambdaCalculus.Token.Lexer

/-!
# Sources that are not UTF-8

The lexer looks for the first place at which no character starts.  In front of it
there are characters only, and no longer part of the source consists of
characters.  So the place that is reported for a source without a valid encoding
is where its longest valid part ends.
-/

namespace LambdaCalculus
namespace Text

/-- The text is valid in front of the offset, and goes on behind it without
another character. -/
structure ValidUpTo
    (text : Text)
    (offset : Nat) : Prop where
  /-- The offset lies inside the text. -/
  inside : offset < text.length
  /-- Characters lead up to it. -/
  valid : IsUtf8 (text.take offset)
  /-- No longer part in front of the text consists of characters. -/
  longest : ∀ front, front <+: text -> IsUtf8 front -> front.length ≤ offset
  /-- No character starts at the offset. -/
  stops : ∀ character : Char,
    ¬ String.utf8EncodeChar character <+: text.drop offset

/-- The search passes over characters and ends where no sequence is complete. -/
theorem split_of_firstInvalidFrom?
    (found : firstInvalidFrom? start text = some offset) :
    ∃ front first following, IsUtf8 front ∧
      text = front ++ first :: following ∧
      offset = start + front.length ∧
      trailing? first following = none := by
  fun_induction firstInvalidFrom? start text with
  | case1 => cases found
  | case2 start first following incomplete =>
      cases found
      exact ⟨[], first, following, isUtf8_nil, rfl, rfl, incomplete⟩
  | case3 start first following trailing complete inductionHypothesis =>
      obtain ⟨front, next, behind, isUtf8, split, place, incomplete⟩ :=
        inductionHypothesis found
      obtain ⟨character, encoded⟩ := exists_utf8EncodeChar_eq complete
      have bound := (trailing?_append first [] complete).1
      refine ⟨first :: following.take trailing ++ front, next, behind, ?_, ?_,
        ?_, incomplete⟩
      · rw [← encoded]
        exact (isUtf8_utf8EncodeChar character).append isUtf8
      · rw [List.append_assoc, ← split, List.cons_append,
          List.take_append_drop]
      · simp only [List.length_append, List.length_cons, List.length_take]
        omega

/-- No character starts where the sequence is not complete. -/
theorem not_prefix_of_trailing?
    (incomplete : trailing? first following = none)
    (character : Char) :
    ¬ String.utf8EncodeChar character <+: first :: following := by
  rintro ⟨rest, split⟩
  obtain ⟨lead, others, encoded, complete⟩ :=
    trailing?_utf8EncodeChar character rest
  rw [encoded, List.cons_append, List.cons.injEq] at split
  obtain ⟨rfl, rfl⟩ := split
  rw [incomplete] at complete
  cases complete

/-- Where no character starts behind characters, no longer part is valid. -/
theorem length_le_of_stops
    {front back longer : Text}
    (isUtf8 : IsUtf8 front)
    (stops : ∀ character : Char, ¬ String.utf8EncodeChar character <+: back)
    (isFront : longer <+: front ++ back)
    (longerIsUtf8 : IsUtf8 longer) :
    longer.length ≤ front.length := by
  rcases Nat.le_total longer.length front.length with shorter | atLeast
  · exact shorter
  · obtain ⟨more, rfl⟩ := List.prefix_of_prefix_length_le
      (List.prefix_append front back) isFront atLeast
    obtain ⟨characters, encoded⟩ := isUtf8.of_append longerIsUtf8
    cases characters with
    | nil =>
        apply Nat.le_of_eq
        rw [encoded, List.flatMap_nil, List.append_nil]
    | cons character characters =>
        rw [List.flatMap_cons] at encoded
        rw [encoded] at isFront
        have behind := (List.prefix_append_right_inj front).mp isFront
        exact absurd ((List.prefix_append _ _).trans behind) (stops character)

/-- The search gives the end of the longest valid part. -/
theorem validUpTo_of_firstInvalid?
    (found : firstInvalid? text = some offset) :
    text.ValidUpTo offset := by
  obtain ⟨front, first, following, isUtf8, rfl, place, incomplete⟩ :=
    split_of_firstInvalidFrom? found
  have stops := not_prefix_of_trailing? incomplete
  rw [Nat.zero_add] at place
  subst place
  constructor
  case inside =>
    rw [List.length_append, List.length_cons]
    omega
  case valid => rwa [List.take_left]
  case longest =>
    intro longer isFront longerIsUtf8
    exact length_le_of_stops isUtf8 stops isFront longerIsUtf8
  case stops => rwa [List.drop_left]

end Text

/-! ## Lexing -/

/-- The diagnostics of the error tokens among some tokens. -/
def unknownCharacters (tokens : List Token) : Diagnostics :=
  (tokens.filter fun token => token.kind == .error).map
    Token.unknownCharacter

theorem lex_of_invalid
    (file : Nat)
    (invalid : Text.firstInvalid? source = some offset) :
    lex file source =
      ⟨⟨source, [], ⟨file, source.length, source.length⟩⟩,
        [invalidUtf8 file source offset]⟩ := by
  simp [lex, invalid]

theorem lex_of_valid
    (file : Nat)
    (valid : Text.firstInvalid? source = none) :
    lex file source =
      ⟨⟨source, Token.scan file 0 source,
          ⟨file, source.length, source.length⟩⟩,
        unknownCharacters (Token.scan file 0 source)⟩ := by
  simp [lex, valid, unknownCharacters]

/-- Nothing that is said about an unknown character is fatal. -/
theorem hasCode_unknownCharacters
    (tokens : List Token) :
    Diagnostics.hasCode (unknownCharacters tokens) .invalidUtf8 = false := by
  simp [Diagnostics.hasCode, Diagnostics.firstWith?, unknownCharacters,
    Token.unknownCharacter]

/-- The lexer takes a source for valid, and has nothing to say about its encoding,
exactly if the source encodes a list of characters.  Otherwise it gives the end
of input only, and the one diagnostic is fatal and points at the byte behind the
longest part that encodes characters, where no character starts. -/
theorem lex_reports_validity
    (file : Nat)
    (source : Text) :
    (Text.firstInvalid? source = none ↔ source.IsUtf8) ∧
    (Diagnostics.hasCode (lex file source).diagnostics .invalidUtf8 = false ↔
      source.IsUtf8) ∧
    (¬ source.IsUtf8 ->
      ∃ offset byte,
        source.ValidUpTo offset ∧ source[offset]? = some byte ∧
        (lex file source).stream.entries =
          [⟨.endOfInput, ⟨file, source.length, source.length⟩, []⟩] ∧
        (lex file source).diagnostics =
          [⟨.fatal, .invalidUtf8, ⟨file, offset, offset + 1⟩,
            [Text.decimal offset, Text.hexByte byte]⟩]) := by
  refine ⟨Text.firstInvalid?_eq_none_iff source, ?_⟩
  rw [← Text.firstInvalid?_eq_none_iff]
  cases found : Text.firstInvalid? source with
  | none =>
      rw [lex_of_valid file found]
      exact ⟨⟨fun _ => rfl, fun _ => hasCode_unknownCharacters _⟩,
        fun invalid => absurd rfl invalid⟩
  | some offset =>
      have validUpTo := Text.validUpTo_of_firstInvalid? found
      have inside := validUpTo.inside
      have isByte : source[offset]? = some source[offset] :=
        List.getElem?_eq_getElem inside
      have oneByte : min (offset + 1) source.length = offset + 1 :=
        Nat.min_eq_left inside
      rw [lex_of_invalid file found]
      refine ⟨⟨nofun, nofun⟩, fun _ => ⟨offset, source[offset], validUpTo,
        isByte, rfl, ?_⟩⟩
      rw [invalidUtf8, oneByte, List.getD_eq_getElem?_getD, isByte,
        Option.getD_some]

/-- In `λ` followed by the three bytes of a surrogate the last part that encodes
characters is the `λ`, and the first byte of the surrogate is reported. -/
theorem lex_reports_validity_surrogate :
    let source : Text := [0xCE, 0xBB, 0xED, 0xA0, 0x80]
    ¬ source.IsUtf8 ∧ source.ValidUpTo 2 ∧
      (lex 7 source).stream.entries = [⟨.endOfInput, ⟨7, 5, 5⟩, []⟩] ∧
      (lex 7 source).diagnostics =
        [⟨.fatal, .invalidUtf8, ⟨7, 2, 3⟩, ["2", "ED"]⟩] := by
  intro source
  have diagnosed : (lex 7 source).diagnostics =
      [⟨.fatal, .invalidUtf8, ⟨7, 2, 3⟩, ["2", "ED"]⟩] := by
    decide +kernel
  obtain ⟨_, validity, report⟩ := lex_reports_validity 7 source
  have invalid : ¬ source.IsUtf8 := by
    rw [← validity, diagnosed]
    nofun
  obtain ⟨offset, byte, validUpTo, _, entries, same⟩ := report invalid
  rw [diagnosed] at same
  obtain rfl : 2 = offset := by
    simpa using congrArg (List.map fun diagnostic => diagnostic.span.lo) same
  exact ⟨invalid, validUpTo, entries, diagnosed⟩

end LambdaCalculus
