import LambdaCalculus.Proofs.Token.Pieces

/-!
# Lexing loses nothing

The entries of a valid source lie in it one behind the other, each with the
bytes at its place, and only blanks lie between them.  Identifiers are longest
runs of letters, and errors are single characters, each of which is reported.
-/

namespace LambdaCalculus

namespace Text

/-- The offset does not lie inside a character. -/
def IsBoundary
    (text : Text)
    (offset : Nat) : Prop :=
  ∃ front back, IsUtf8 front ∧ IsUtf8 back ∧ text = front ++ back ∧
    offset = front.length

/-- There are letters from `lo` up to `hi`, and none next to them. -/
structure IsLongestRun
    (text : Text)
    (lo hi : Nat) : Prop where
  /-- All bytes are letters. -/
  letters : ∀ byte ∈ text.slice lo hi, isLetter byte = true
  /-- The byte in front of them is not a letter. -/
  before : ∀ offset byte, offset + 1 = lo -> text[offset]? = some byte ->
    isLetter byte = false
  /-- The byte behind them is not a letter. -/
  behind : ∀ byte, text[hi]? = some byte -> isLetter byte = false

end Text

/-- The spellings of a fixed symbol. -/
def Token.Kind.spelledBy : Token.Kind -> List Text
  | .leftParenthesis => ["("]
  | .rightParenthesis => [")"]
  | .lambda => ["λ", "\\"]
  | .dot => ["."]
  | .colon => [":"]
  | .arrow => ["→", "->"]
  | .identifier => []
  | .error => []

/-- The entries of the source leave out blanks only, and the diagnostics report
its errors. -/
structure Lexed.Lossless
    (lexed : Lexed)
    (file : Nat)
    (source : Text) : Prop where
  /-- The last entry, and no other one, is the end of input; it is empty, and no
  other one is. -/
  ends : ∃ others,
    lexed.stream.entries = others ++
      [⟨.endOfInput, ⟨file, source.length, source.length⟩, []⟩] ∧
    ∀ entry ∈ others, entry.symbol ≠ .endOfInput ∧
      entry.span.lo < entry.span.hi
  /-- Every entry starts where the one in front of it ends, or later. -/
  increasing : lexed.stream.entries.Pairwise fun left right =>
    left.span.hi ≤ right.span.lo
  /-- Every entry has the bytes at its place. -/
  slices : ∀ entry ∈ lexed.stream.entries, entry.span.file = file ∧
    entry.lexeme = source.slice entry.span.lo entry.span.hi
  /-- A byte outside all entries is blank. -/
  gaps : ∀ offset byte, source[offset]? = some byte ->
    (∀ entry ∈ lexed.stream.entries,
      ¬ (entry.span.lo ≤ offset ∧ offset < entry.span.hi)) ->
    Text.isBlank byte = true
  /-- Entries start and end between characters. -/
  boundaries : ∀ entry ∈ lexed.stream.entries,
    source.IsBoundary entry.span.lo ∧ source.IsBoundary entry.span.hi
  /-- Identifiers are longest runs of letters. -/
  identifiers : ∀ entry ∈ lexed.stream.entries,
    entry.symbol = .token .identifier ->
    source.IsLongestRun entry.span.lo entry.span.hi
  /-- No other entry has letters in it. -/
  letters : ∀ entry ∈ lexed.stream.entries,
    entry.symbol ≠ .token .identifier ->
    ∀ byte ∈ entry.lexeme, Text.isLetter byte = false
  /-- Errors are single characters at which no other token starts. -/
  errors : ∀ entry ∈ lexed.stream.entries, entry.symbol = .token .error ->
    (∃ character, entry.lexeme = String.utf8EncodeChar character) ∧
      Text.StartsNoToken (source.drop entry.span.lo)
  /-- The other tokens are fixed symbols, spelled as these may be. -/
  symbols : ∀ entry ∈ lexed.stream.entries, ∀ kind,
    entry.symbol = .token kind -> kind ≠ .identifier -> kind ≠ .error ->
    entry.lexeme ∈ kind.spelledBy
  /-- Errors are reported in their order, and nothing else is. -/
  diagnostics : lexed.diagnostics =
    (lexed.stream.entries.filter fun entry =>
      entry.symbol == .token .error).map fun entry =>
        ⟨.error, .unknownCharacter, entry.span, [entry.lexeme]⟩

namespace Token

/-! ## One token -/

theorem IsLexeme.spelled
    {kind : Kind}
    {lexeme back : Text}
    (isLexeme : IsLexeme kind lexeme back)
    (notIdentifier : kind ≠ .identifier)
    (notError : kind ≠ .error) :
    lexeme ∈ kind.spelledBy := by
  cases isLexeme with
  | identifier _ _ _ => exact (notIdentifier rfl).elim
  | error _ _ => exact (notError rfl).elim
  | symbol listed _ =>
      have all : ∀ entry ∈ spellings,
          entry.2.1 :: entry.2.2 ∈ entry.1.spelledBy := by
        decide
      exact all _ listed

section Stands

variable {token : Token} {source : Text}

theorem Stands.nonempty
    (stands : Stands file offset token source) :
    token.span.lo < token.span.hi := by
  cases stands with
  | between front back _ _ isLexeme _ span =>
      have positive := List.length_pos_iff.mpr isLexeme.ne_nil
      rw [span]
      exact Nat.lt_add_of_pos_right positive

theorem Stands.bounds
    (stands : Stands file offset token source) :
    offset ≤ token.span.lo ∧ token.span.hi ≤ offset + source.length := by
  cases stands with
  | between front back _ _ _ _ span =>
      rw [span]
      simp only [List.length_append]
      omega

theorem Stands.slice_eq
    (stands : Stands file 0 token source) :
    token.span.file = file ∧
      token.lexeme = source.slice token.span.lo token.span.hi := by
  cases stands with
  | between front back _ _ _ _ span =>
      refine ⟨by rw [span], ?_⟩
      rw [span, Nat.zero_add, Text.slice, List.drop_left,
        Nat.add_sub_cancel_left, List.take_left]

theorem Stands.isBoundary
    (stands : Stands file 0 token source) :
    source.IsBoundary token.span.lo ∧ source.IsBoundary token.span.hi := by
  cases stands with
  | between front back frontIsUtf8 backIsUtf8 isLexeme _ span =>
      rw [span]
      refine ⟨⟨front, token.lexeme ++ back, frontIsUtf8,
        isLexeme.isUtf8.append backIsUtf8, rfl, Nat.zero_add _⟩,
        ⟨front ++ token.lexeme, back, frontIsUtf8.append isLexeme.isUtf8,
          backIsUtf8, (List.append_assoc _ _ _).symm, ?_⟩⟩
      rw [List.length_append, Nat.zero_add]

theorem Stands.isLongestRun
    (stands : Stands file 0 token source)
    (isIdentifier : token.kind = .identifier) :
    source.IsLongestRun token.span.lo token.span.hi := by
  have sameBytes := stands.slice_eq.2
  cases stands with
  | between front back _ _ isLexeme apart span =>
      rw [isIdentifier] at isLexeme
      obtain ⟨letters, ends⟩ := isLexeme.letters
      constructor
      · rwa [← sameBytes]
      · intro offset byte last isByte
        have isLast : offset + 1 = front.length := by
          rw [last, span, Nat.zero_add]
        rw [List.getElem?_append_left (by omega)] at isByte
        apply apart isIdentifier byte
        rwa [List.getLast?_eq_getElem?, ← isLast, Nat.add_sub_cancel]
      · intro byte isByte
        rw [span, Nat.zero_add, List.getElem?_append_right (by simp),
          Nat.add_sub_cancel_left, List.getElem?_append_right (by simp),
          Nat.sub_self] at isByte
        cases back with
        | nil => cases isByte
        | cons first others =>
            cases isByte
            simpa [Text.endsWord] using ends

theorem Stands.startsNoToken
    (stands : Stands file 0 token source)
    (isError : token.kind = .error) :
    (∃ character, token.lexeme = String.utf8EncodeChar character) ∧
      Text.StartsNoToken (source.drop token.span.lo) := by
  cases stands with
  | between front back _ _ isLexeme _ span =>
      rw [isError] at isLexeme
      rw [span, Nat.zero_add, List.drop_left]
      exact isLexeme.character

theorem Stands.noLetters
    (stands : Stands file offset token source)
    (notIdentifier : token.kind ≠ .identifier) :
    ∀ byte ∈ token.lexeme, Text.isLetter byte = false := by
  cases stands with
  | between front back _ _ isLexeme _ span =>
      exact isLexeme.noLetters notIdentifier

theorem Stands.spelled
    (stands : Stands file offset token source)
    (notIdentifier : token.kind ≠ .identifier)
    (notError : token.kind ≠ .error) :
    token.lexeme ∈ token.kind.spelledBy := by
  cases stands with
  | between front back _ _ isLexeme _ span =>
      exact isLexeme.spelled notIdentifier notError

end Stands

/-! ## All tokens -/

/-- Tokens lie one behind the other. -/
theorem Scans.pairwise
    (scans : Scans file offset text tokens) :
    tokens.Pairwise fun left right => left.span.hi ≤ right.span.lo := by
  induction scans with
  | nil => exact .nil
  | blank _ _ inductionHypothesis => exact inductionHypothesis
  | lexeme _ rest inductionHypothesis =>
      exact .cons (fun token member => (rest.stands member).bounds.1)
        inductionHypothesis

/-- A byte that lies in no token is blank. -/
theorem Scans.isBlank_of_uncovered
    (scans : Scans file offset text tokens)
    (isByte : text[index]? = some byte)
    (uncovered : ∀ token ∈ tokens,
      ¬ (token.span.lo ≤ offset + index ∧ offset + index < token.span.hi)) :
    Text.isBlank byte = true := by
  induction scans generalizing index with
  | nil => cases isByte
  | blank blank _ inductionHypothesis =>
      cases index with
      | zero =>
          cases isByte
          exact blank
      | succ index =>
          apply inductionHypothesis isByte
          intro token member
          rw [Nat.add_assoc, Nat.add_comm 1]
          exact uncovered token member
  | @lexeme offset _ _ lexeme _ _ _ inductionHypothesis =>
      by_cases covered : index < lexeme.length
      · exact (uncovered _ List.mem_cons_self
          ⟨Nat.le_add_right _ _, Nat.add_lt_add_left covered offset⟩).elim
      · have behind := Nat.le_of_not_lt covered
        rw [List.getElem?_append_right behind] at isByte
        apply inductionHypothesis isByte
        intro token member
        rw [Nat.add_assoc, Nat.add_sub_cancel' behind]
        exact uncovered token (List.mem_cons_of_mem _ member)

end Token

namespace TokenStream

/-- What holds of the tokens and of the end of input holds of all entries. -/
theorem forall_mem_entries
    {stream : TokenStream}
    {property : Entry -> Prop}
    (ofTokens : ∀ token ∈ stream.tokens, property (.ofToken token))
    (ofFinish : property stream.finishEntry) :
    ∀ entry ∈ stream.entries, property entry := by
  intro entry member
  rcases List.mem_append.mp member with inTokens | isFinish
  · obtain ⟨token, listed, rfl⟩ := List.mem_map.mp inTokens
    exact ofTokens token listed
  · rw [List.mem_singleton.mp isFinish]
    exact ofFinish

/-- The entries of errors are those of the error tokens. -/
theorem filter_error_entries
    (stream : TokenStream) :
    (stream.entries.filter fun entry => entry.symbol == .token .error) =
      (stream.tokens.filter fun token => token.kind == .error).map
        Entry.ofToken := by
  have sameTest : (fun entry : Entry => entry.symbol == .token .error) ∘
      Entry.ofToken = fun token => token.kind == .error := by
    funext token
    rw [Bool.eq_iff_iff]
    simp [Entry.ofToken]
  have noFinish : ([stream.finishEntry].filter fun entry =>
      entry.symbol == .token .error) = [] := rfl
  rw [entries, List.filter_append, List.filter_map, sameTest, noFinish,
    List.append_nil]

end TokenStream

/-- A valid source is lexed without loss. -/
theorem lex_lossless
    (file : Nat)
    (source : Text)
    (isUtf8 : source.IsUtf8) :
    (lex file source).Lossless file source := by
  have valid := (Text.firstInvalid?_eq_none_iff source).mpr isUtf8
  have scans := Token.scans_scan file 0 isUtf8
  have lexed : lex file source =
      ⟨⟨source, Token.scan file 0 source, ⟨file, source.length, source.length⟩⟩,
        ((Token.scan file 0 source).filter fun token =>
          token.kind == .error).map Token.unknownCharacter⟩ := by
    simp [lex, valid]
  rw [lexed]
  generalize Token.scan file 0 source = tokens at scans
  constructor
  case ends =>
    refine ⟨tokens.map .ofToken, rfl, ?_⟩
    intro entry member
    obtain ⟨token, listed, rfl⟩ := List.mem_map.mp member
    exact ⟨nofun, (scans.stands listed).nonempty⟩
  case increasing =>
    refine List.pairwise_append.mpr
      ⟨List.pairwise_map.mpr scans.pairwise, List.pairwise_singleton _ _, ?_⟩
    intro entry member other isFinish
    obtain ⟨token, listed, rfl⟩ := List.mem_map.mp member
    rw [List.mem_singleton.mp isFinish]
    have inside := (scans.stands listed).bounds.2
    rw [Nat.zero_add] at inside
    exact inside
  case slices =>
    refine TokenStream.forall_mem_entries
      (fun token listed => (scans.stands listed).slice_eq) ⟨rfl, ?_⟩
    simp [TokenStream.finishEntry, Text.slice]
  case gaps =>
    intro offset byte isByte uncovered
    apply scans.isBlank_of_uncovered isByte
    intro token listed
    rw [Nat.zero_add]
    exact uncovered (.ofToken token)
      (List.mem_append_left _ (List.mem_map_of_mem listed))
  case boundaries =>
    have atEnd : source.IsBoundary source.length :=
      ⟨source, [], isUtf8, Text.isUtf8_nil, (List.append_nil _).symm, rfl⟩
    exact TokenStream.forall_mem_entries
      (fun token listed => (scans.stands listed).isBoundary) ⟨atEnd, atEnd⟩
  case identifiers =>
    refine TokenStream.forall_mem_entries ?_ nofun
    intro token listed isIdentifier
    exact (scans.stands listed).isLongestRun
      (Token.Symbol.token.inj isIdentifier)
  case letters =>
    refine TokenStream.forall_mem_entries ?_ (fun _ => nofun)
    intro token listed notIdentifier
    exact (scans.stands listed).noLetters
      fun isIdentifier => notIdentifier (congrArg _ isIdentifier)
  case errors =>
    refine TokenStream.forall_mem_entries ?_ nofun
    intro token listed isError
    exact (scans.stands listed).startsNoToken (Token.Symbol.token.inj isError)
  case symbols =>
    refine TokenStream.forall_mem_entries ?_ (fun _ => nofun)
    intro token listed kind isKind notIdentifier notError
    cases isKind
    exact (scans.stands listed).spelled notIdentifier notError
  case diagnostics =>
    rw [TokenStream.filter_error_entries, List.map_map]
    rfl

/-- In `(fo-é→ λ` the minus sign and the accented letter are errors. -/
theorem lex_lossless_errors :
    let source : Text := "(fo-é→ λ"
    source.IsUtf8 ∧ (lex 0 source).Lossless 0 source ∧
      (lex 0 source).diagnostics.map Diagnostic.span =
        [⟨0, 3, 4⟩, ⟨0, 4, 6⟩] := by
  intro source
  have isUtf8 : source.IsUtf8 := ⟨"(fo-é→ λ".toList, rfl⟩
  exact ⟨isUtf8, lex_lossless 0 source isUtf8, by decide +kernel⟩

end LambdaCalculus
