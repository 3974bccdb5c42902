import LambdaCalculus.Proofs.Text.Encoding
import LambdaCalculus.Proofs.Token.Alphabet
import LambdaCalculus.Proofs.Token.Scan

/-!
# Pieces of a source

A valid text falls into blanks and lexemes.  A lexeme is a run of letters with
no letter behind it, a fixed symbol, or one character at which neither of these
starts.  Scanning takes a text apart in this way, and every token stands in the
text between two valid parts of it.
-/

namespace LambdaCalculus
namespace Text

/-- The text starts with no letter and with no fixed symbol. -/
structure StartsNoToken (text : Text) : Prop where
  /-- There is no letter in front. -/
  noLetter : text.endsWord = true
  /-- There is no fixed symbol in front. -/
  noSymbol : ∀ symbol ∈ symbols, ¬ symbol <+: text

/-- The text does not end with a letter. -/
def EndsApart (text : Text) : Prop :=
  ∀ byte, text.getLast? = some byte -> isLetter byte = false

theorem endsApart_of_noLetters
    {text : Text}
    (noLetters : ∀ byte ∈ text, isLetter byte = false) :
    EndsApart text :=
  fun byte last => noLetters byte (List.mem_of_getLast? last)

theorem isLetter_of_isBlank
    (blank : isBlank byte = true) :
    isLetter byte = false := by
  cases letter : isLetter byte with
  | false => rfl
  | true =>
      rw [(Token.isLetter_spec byte letter).2] at blank
      cases blank

theorem isLetter_of_isContinuation
    (continuation : isContinuation byte = true) :
    isLetter byte = false := by
  cases letter : isLetter byte with
  | false => rfl
  | true =>
      have low := (Token.isLetter_spec byte letter).1
      have high := (isContinuation_iff byte).mp continuation
      rw [UInt8.lt_iff_toNat_lt] at low
      exact absurd high.1 (Nat.not_le_of_lt low)

end Text

namespace Token

/-! ## Lexemes -/

/-- The text is a lexeme of the given kind when another text follows. -/
inductive IsLexeme : Kind -> Text -> Text -> Prop
  | identifier
      {lexeme back : Text}
      (nonempty : lexeme ≠ [])
      (letters : ∀ byte ∈ lexeme, Text.isLetter byte = true)
      (ends : back.endsWord = true) :
      IsLexeme .identifier lexeme back
  | symbol
      {kind : Kind}
      (listed : (kind, first, others) ∈ spellings)
      (back : Text) :
      IsLexeme kind (first :: others) back
  | error
      {back : Text}
      (character : Char)
      (unknown : Text.StartsNoToken (String.utf8EncodeChar character ++ back)) :
      IsLexeme .error (String.utf8EncodeChar character) back

/-- Where the scanner finds no fixed symbol, none starts. -/
theorem not_prefix_of_spelling?
    (absent : spelling? first rest = none)
    (listed : symbol ∈ Text.symbols) :
    ¬ symbol <+: first :: rest := by
  have known : ∀ symbol ∈ Text.symbols, ∃ entry ∈ spellings,
      entry.2.1 :: entry.2.2 = symbol := by
    decide
  obtain ⟨⟨kind, lead, others⟩, member, rfl⟩ := known symbol listed
  intro fits
  obtain ⟨rfl, startsWith⟩ := List.cons_prefix_cons.mp fits
  have different := List.find?_eq_none.mp absent _ member
  simp only [beq_self_eq_true, Bool.true_and,
    List.isPrefixOf_iff_prefix] at different
  exact different startsWith

/-- The character in front of a valid text has as many bytes as its first byte
promises. -/
theorem exists_character_of_lead?
    (isUtf8 : Text.IsUtf8 (first :: rest)) :
    ∃ character : Char, String.utf8EncodeChar character =
      first :: rest.take (((Text.lead? first).map Text.Lead.trailing).getD 0) := by
  rw [← Text.firstInvalid?_eq_none_iff, Text.firstInvalid?,
    Text.firstInvalidFrom?] at isUtf8
  split at isUtf8
  next => cases isUtf8
  next trailing complete =>
      obtain ⟨character, encoded⟩ := Text.exists_utf8EncodeChar_eq complete
      refine ⟨character, ?_⟩
      unfold Text.trailing? at complete
      split at complete
      next => cases complete
      next lead starts =>
          obtain ⟨_, same⟩ := Option.ite_none_right_eq_some.mp complete
          cases same
          rw [encoded, starts]
          rfl

/-- A letter and the letters that follow it are an identifier. -/
theorem isLexeme_run
    (isLetter : Text.isLetter first = true)
    (rest : Text) :
    IsLexeme .identifier
      (first :: rest.take (rest.takeWhile Text.isLetter).length)
      (rest.drop (rest.takeWhile Text.isLetter).length) := by
  have run : rest.take (rest.takeWhile Text.isLetter).length =
      rest.takeWhile Text.isLetter :=
    (List.prefix_iff_eq_take.mp (List.takeWhile_prefix _)).symm
  have behind : rest.drop (rest.takeWhile Text.isLetter).length =
      rest.dropWhile Text.isLetter := by
    nth_rewrite 2 [← List.takeWhile_append_dropWhile (p := Text.isLetter)
      (l := rest)]
    exact List.drop_left
  rw [run, behind]
  refine .identifier (List.cons_ne_nil _ _) ?_ ?_
  · exact List.forall_mem_cons.mpr
      ⟨isLetter, fun byte member => List.mem_takeWhile_imp member⟩
  · cases others : rest.dropWhile Text.isLetter with
    | nil => rfl
    | cons byte others =>
        have notLetter := List.head?_dropWhile_not Text.isLetter rest
        rw [others] at notLetter
        simpa [Text.endsWord] using notLetter

/-- The scanner cuts a lexeme off the front of a valid text. -/
theorem isLexeme_front
    (isUtf8 : Text.IsUtf8 (first :: rest)) :
    IsLexeme (front first rest).1
      (first :: rest.take (front first rest).2)
      (rest.drop (front first rest).2) := by
  unfold front
  split
  next isLetter => exact isLexeme_run isLetter rest
  next notLetter =>
      split
      next kind lead others found =>
          obtain ⟨listed, rfl, back, rfl⟩ := of_spelling? found
          rw [List.take_left, List.drop_left]
          exact .symbol listed back
      next absent =>
          obtain ⟨character, encoded⟩ := exists_character_of_lead? isUtf8
          simp only
          rw [← encoded]
          apply IsLexeme.error
          rw [encoded, List.cons_append, List.take_append_drop]
          exact ⟨by simpa [Text.endsWord] using notLetter,
            fun symbol listed => not_prefix_of_spelling? absent listed⟩

/-- Identifiers and errors have no fixed spelling. -/
theorem kind_ne_of_mem_spellings
    {kind : Kind}
    (listed : (kind, first, others) ∈ spellings) :
    kind ≠ .identifier ∧ kind ≠ .error := by
  have all : ∀ entry ∈ spellings,
      entry.1 ≠ Kind.identifier ∧ entry.1 ≠ Kind.error := by
    decide
  exact all _ listed

namespace IsLexeme

variable {kind : Kind} {lexeme back : Text}

/-- An identifier is a run of letters that cannot be made longer. -/
theorem letters
    (isLexeme : IsLexeme .identifier lexeme back) :
    (∀ byte ∈ lexeme, Text.isLetter byte = true) ∧ back.endsWord = true := by
  cases isLexeme with
  | identifier _ letters ends => exact ⟨letters, ends⟩
  | symbol listed _ => exact ((kind_ne_of_mem_spellings listed).1 rfl).elim

/-- An error is one character at which nothing else starts. -/
theorem character
    (isLexeme : IsLexeme .error lexeme back) :
    (∃ character, lexeme = String.utf8EncodeChar character) ∧
      Text.StartsNoToken (lexeme ++ back) := by
  cases isLexeme with
  | symbol listed _ => exact ((kind_ne_of_mem_spellings listed).2 rfl).elim
  | error character unknown => exact ⟨⟨character, rfl⟩, unknown⟩

theorem ne_nil
    (isLexeme : IsLexeme kind lexeme back) :
    lexeme ≠ [] := by
  cases isLexeme with
  | identifier nonempty _ _ => exact nonempty
  | symbol _ _ => exact List.cons_ne_nil _ _
  | error character _ =>
      obtain ⟨first, others, encoded, _⟩ :=
        Text.trailing?_utf8EncodeChar character []
      rw [encoded]
      exact List.cons_ne_nil _ _

theorem isUtf8
    (isLexeme : IsLexeme kind lexeme back) :
    Text.IsUtf8 lexeme := by
  cases isLexeme with
  | identifier _ letters _ =>
      exact Text.isUtf8_of_ascii fun byte member =>
        (isLetter_spec byte (letters byte member)).1
  | symbol listed _ =>
      exact (Text.firstInvalid?_eq_none_iff _).mp
        (firstInvalid?_spelling listed)
  | error character _ => exact Text.isUtf8_utf8EncodeChar character

/-- Letters are found in identifiers only. -/
theorem noLetters
    (isLexeme : IsLexeme kind lexeme back)
    (notIdentifier : kind ≠ .identifier) :
    ∀ byte ∈ lexeme, Text.isLetter byte = false := by
  cases isLexeme with
  | identifier _ _ _ => exact (notIdentifier rfl).elim
  | symbol listed _ =>
      have all : ∀ entry ∈ spellings, ∀ byte ∈ entry.2.1 :: entry.2.2,
          Text.isLetter byte = false := by
        decide +kernel
      exact all _ listed
  | error character unknown =>
      obtain ⟨first, others, encoded, _⟩ :=
        Text.trailing?_utf8EncodeChar character []
      have notLetter := unknown.noLetter
      rw [encoded] at notLetter ⊢
      refine List.forall_mem_cons.mpr ⟨?_, ?_⟩
      · simpa [Text.endsWord] using notLetter
      · exact fun byte member => Text.isLetter_of_isContinuation
          (Text.isContinuation_of_encoded encoded member)

/-- No identifier goes on where a lexeme ends. -/
theorem apart
    (isLexeme : IsLexeme kind lexeme back) :
    back.endsWord = true ∨ lexeme.EndsApart := by
  by_cases isIdentifier : kind = .identifier
  · subst isIdentifier
    exact Or.inl isLexeme.letters.2
  · exact Or.inr (Text.endsApart_of_noLetters
      (isLexeme.noLetters isIdentifier))

end IsLexeme

/-! ## Scanned texts -/

/-- The text falls into blanks and the lexemes of the given tokens. -/
inductive Scans (file : Nat) : Nat -> Text -> List Token -> Prop
  | nil (offset : Nat) : Scans file offset [] []
  | blank
      {byte : UInt8}
      (blank : Text.isBlank byte = true)
      (rest : Scans file (offset + 1) text tokens) :
      Scans file offset (byte :: text) tokens
  | lexeme
      {kind : Kind}
      {lexeme text : Text}
      (isLexeme : IsLexeme kind lexeme text)
      (rest : Scans file (offset + lexeme.length) text tokens) :
      Scans file offset (lexeme ++ text)
        (placed kind file offset lexeme :: tokens)

theorem isUtf8_blank
    (blank : Text.isBlank byte = true) :
    Text.IsUtf8 [byte] :=
  Text.isUtf8_of_ascii (by simpa using isBlank_lt blank)

/-- Scanning takes a valid text apart. -/
theorem scans_scan
    (file offset : Nat)
    (isUtf8 : Text.IsUtf8 text) :
    Scans file offset text (scan file offset text) := by
  fun_induction scan file offset text with
  | case1 => exact .nil _
  | case2 offset first rest blank inductionHypothesis =>
      exact .blank blank
        (inductionHypothesis ((isUtf8_blank blank).of_append isUtf8))
  | case3 offset first rest notBlank further lexeme inductionHypothesis =>
      have isLexeme := isLexeme_front isUtf8
      have split : first :: rest = lexeme ++ rest.drop further := by
        rw [List.cons_append, List.take_append_drop]
      rw [split] at isUtf8
      have behind := inductionHypothesis (isLexeme.isUtf8.of_append isUtf8)
      have scanned := Scans.lexeme isLexeme behind
      rw [split]
      exact scanned

theorem Scans.isUtf8
    (scans : Scans file offset text tokens) :
    Text.IsUtf8 text := by
  induction scans with
  | nil => exact Text.isUtf8_nil
  | blank blank _ inductionHypothesis =>
      exact (isUtf8_blank blank).append inductionHypothesis
  | lexeme isLexeme _ inductionHypothesis =>
      exact isLexeme.isUtf8.append inductionHypothesis

/-! ## The places of tokens -/

/-- The token stands in the text, between two valid parts of it, and it is not
the end of a longer identifier. -/
inductive Stands (file offset : Nat) (token : Token) : Text -> Prop
  | between
      (front back : Text)
      (frontIsUtf8 : front.IsUtf8)
      (backIsUtf8 : back.IsUtf8)
      (isLexeme : IsLexeme token.kind token.lexeme back)
      (apart : token.kind = .identifier -> front.EndsApart)
      (span : token.span = ⟨file, offset + front.length,
        offset + front.length + token.lexeme.length⟩) :
      Stands file offset token (front ++ (token.lexeme ++ back))

/-- What stands in a text stands there behind a further piece, too, if the piece
ends apart or the text ends a word.  A text that ends a word does not start with
an identifier, because that would start with a letter. -/
theorem Stands.prepend
    {piece text : Text}
    (stands : Stands file (offset + piece.length) token text)
    (isUtf8 : piece.IsUtf8)
    (separated : text.endsWord = true ∨ piece.EndsApart) :
    Stands file offset token (piece ++ text) := by
  cases stands with
  | between front back frontIsUtf8 backIsUtf8 isLexeme apart span =>
      rw [← List.append_assoc]
      refine .between (piece ++ front) back (isUtf8.append frontIsUtf8)
        backIsUtf8 isLexeme ?_ ?_
      · intro isIdentifier byte last
        cases front with
        | cons first others =>
            rw [List.getLast?_append_of_ne_nil _ (List.cons_ne_nil _ _)] at last
            exact apart isIdentifier byte last
        | nil =>
            rw [List.append_nil] at last
            rcases separated with ends | endsApart
            · obtain ⟨first, others, same⟩ :=
                List.exists_cons_of_ne_nil isLexeme.ne_nil
              rw [isIdentifier] at isLexeme
              have isLetter := isLexeme.letters.1 first (by simp [same])
              simp [same, Text.endsWord, isLetter] at ends
            · exact endsApart byte last
      · rw [span, List.length_append]
        simp only [Nat.add_assoc]

/-- Every token of a scanned text stands in it. -/
theorem Scans.stands
    {token : Token}
    (scans : Scans file offset text tokens)
    (member : token ∈ tokens) :
    Stands file offset token text := by
  induction scans with
  | nil => cases member
  | blank blank _ inductionHypothesis =>
      refine (inductionHypothesis member).prepend (isUtf8_blank blank)
        (Or.inr (Text.endsApart_of_noLetters ?_))
      intro byte same
      rw [List.mem_singleton.mp same]
      exact Text.isLetter_of_isBlank blank
  | lexeme isLexeme rest inductionHypothesis =>
      rcases List.mem_cons.mp member with rfl | behind
      · exact .between [] _ Text.isUtf8_nil rest.isUtf8 isLexeme
          (fun _ => nofun) rfl
      · exact (inductionHypothesis behind).prepend isLexeme.isUtf8
          isLexeme.apart

end Token
end LambdaCalculus
