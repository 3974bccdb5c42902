import LambdaCalculus.Command.Files
import LambdaCalculus.Proofs.Token.Determined
import LambdaCalculus.Proofs.Token.Lossless
import LambdaCalculus.Proofs.Token.Validity

/-!
# Line endings

Loading a file leaves carriage returns out.  A carriage return is blank, so the
tokens of the file stay the same as long as it stands between two of them.  One
that stands inside what would be a token without it joins the bytes around it: two
names become one, and the halves of a character become a character.
-/

namespace LambdaCalculus
namespace Text

/-- The text without its carriage returns. -/
def withoutReturns (text : Text) : Text :=
  text.filter (· != carriageReturn)

theorem withoutReturns_return
    (text : Text) :
    withoutReturns (carriageReturn :: text) = withoutReturns text :=
  List.filter_cons_of_neg (by simp)

theorem withoutReturns_cons
    (other : byte ≠ carriageReturn)
    (text : Text) :
    withoutReturns (byte :: text) = byte :: withoutReturns text :=
  List.filter_cons_of_pos (by simpa using other)

theorem withoutReturns_append
    (left right : Text) :
    withoutReturns (left ++ right) =
      withoutReturns left ++ withoutReturns right :=
  List.filter_append _ _

theorem isBlank_carriageReturn : isBlank carriageReturn = true := by
  decide

theorem ne_carriageReturn
    (notBlank : isBlank byte = false) :
    byte ≠ carriageReturn := by
  rintro rfl
  rw [isBlank_carriageReturn] at notBlank
  cases notBlank

theorem withoutReturns_of_noBlanks
    {text : Text}
    (noBlanks : ∀ byte ∈ text, isBlank byte = false) :
    withoutReturns text = text := by
  apply List.filter_eq_self.mpr
  intro byte member
  simpa using ne_carriageReturn (noBlanks byte member)

/-- No carriage return has a byte behind it that is not blank. -/
def EndsLines (text : Text) : Prop :=
  ∀ before byte after, text = before ++ carriageReturn :: byte :: after ->
    isBlank byte = true

/-- It suffices to look at neighbours. -/
theorem endsLines_of_neighbours
    {text : Text}
    (neighbours : ∀ pair ∈ text.zip text.tail,
      pair.1 = carriageReturn -> isBlank pair.2 = true) :
    text.EndsLines := by
  rintro before byte after rfl
  refine neighbours (carriageReturn, byte) ?_ rfl
  clear neighbours
  induction before with
  | nil => exact List.mem_cons_self
  | cons first before inductionHypothesis =>
      rw [List.cons_append, List.tail_cons]
      generalize before ++ carriageReturn :: byte :: after = text
        at inductionHypothesis
      cases text with
      | nil => cases inductionHypothesis
      | cons second text => exact List.mem_cons_of_mem _ inductionHypothesis

/-- Behind a carriage return the text goes on with a blank, or ends, also when
the carriage returns are left out. -/
theorem EndsLines.isBlank_behind
    (endsLines : EndsLines (before ++ carriageReturn :: after))
    (next : (withoutReturns after).head? = some byte) :
    isBlank byte = true := by
  induction after generalizing before with
  | nil => cases next
  | cons first after inductionHypothesis =>
      by_cases isReturn : first = carriageReturn
      · subst isReturn
        rw [withoutReturns_return] at next
        have further :
            EndsLines ((before ++ [carriageReturn]) ++ carriageReturn :: after) := by
          rwa [List.append_assoc, List.singleton_append]
        exact inductionHypothesis further next
      · rw [withoutReturns_cons isReturn] at next
        cases next
        exact endsLines before byte after rfl

/-- The bytes of a slice are those at its indices. -/
theorem mem_slice
    {text : Text}
    (isByte : text[index]? = some byte)
    (starts : lo ≤ index)
    (ends : index < hi) :
    byte ∈ text.slice lo hi := by
  apply List.mem_of_getElem? (i := index - lo)
  rw [slice, List.getElem?_take_of_lt (by omega), List.getElem?_drop,
    Nat.add_sub_cancel' starts, isByte]

end Text

namespace Token

/-- A token without its place. -/
def word (token : Token) : Kind × Text :=
  (token.kind, token.lexeme)

/-- Only the words of the tokens matter to whether they are solid. -/
theorem Solid.of_words
    {tokens others : List Token}
    (solid : Solid tokens)
    (same : others.map word = tokens.map word) :
    Solid others := by
  intro other member
  have isWord : other.word ∈ tokens.map word :=
    same ▸ List.mem_map_of_mem member
  obtain ⟨token, tokenMember, sameWord⟩ := List.mem_map.mp isWord
  rw [← show token.lexeme = other.lexeme from congrArg Prod.snd sameWord]
  exact solid token tokenMember

/-- Some carriage return of the text stands inside one of the tokens, when the
carriage returns are left out and the rest starts at the given offset. -/
def Split
    (offset : Nat)
    (text : Text)
    (tokens : List Token) : Prop :=
  ∃ before after, text = before ++ carriageReturn :: after ∧
    ∃ token ∈ tokens,
      token.span.lo < offset + (Text.withoutReturns before).length ∧
        offset + (Text.withoutReturns before).length < token.span.hi

theorem Split.return
    {tokens : List Token}
    (split : Split offset text tokens) :
    Split offset (carriageReturn :: text) tokens := by
  obtain ⟨before, after, rfl, token, member, inside⟩ := split
  refine ⟨carriageReturn :: before, after, rfl, token, member, ?_⟩
  rwa [Text.withoutReturns_return]

theorem Split.prepend
    {tokens more : List Token}
    {piece : Text}
    (noReturns : Text.withoutReturns piece = piece)
    (split : Split (offset + piece.length) text tokens)
    (among : ∀ token ∈ tokens, token ∈ more) :
    Split offset (piece ++ text) more := by
  obtain ⟨before, after, rfl, token, member, inside⟩ := split
  refine ⟨piece ++ before, after, (List.append_assoc _ _ _).symm, token,
    among token member, ?_⟩
  rwa [Text.withoutReturns_append, noReturns, List.length_append,
    ← Nat.add_assoc]

/-! ## Putting carriage returns in -/

/-- Carriage returns behind a lexeme do not change it.  A symbol has none itself, so
one that starts where the lexeme does starts there without them, too. -/
theorem IsLexeme.of_withoutReturns
    {kind : Kind}
    {lexeme rest : Text}
    (isLexeme : IsLexeme kind lexeme (Text.withoutReturns rest))
    (noBlanks : ∀ byte ∈ lexeme, Text.isBlank byte = false) :
    IsLexeme kind lexeme rest := by
  cases isLexeme with
  | identifier nonempty letters ends =>
      refine .identifier nonempty letters ?_
      cases rest with
      | nil => rfl
      | cons byte rest =>
          by_cases isReturn : byte = carriageReturn
          · subst isReturn
            rfl
          · rwa [Text.withoutReturns_cons isReturn] at ends
  | symbol listed => exact .symbol listed rest
  | error character unknown =>
      obtain ⟨first, others, encoded, _⟩ :=
        Text.trailing?_utf8EncodeChar character []
      refine .error character ⟨?_, ?_⟩
      · have noLetter := unknown.noLetter
        rw [encoded] at noLetter ⊢
        exact noLetter
      · intro symbol listed starts
        have noBlank : Text.symbols.all
            (fun symbol => symbol.all fun byte => !Text.isBlank byte) = true := by
          decide
        have solid : ∀ symbol ∈ Text.symbols, ∀ byte ∈ symbol,
            Text.isBlank byte = false := by
          simpa only [List.all_eq_true, Bool.not_eq_true'] using noBlank
        have kept : Text.withoutReturns symbol <+:
            Text.withoutReturns (String.utf8EncodeChar character ++ rest) :=
          starts.filter _
        rw [Text.withoutReturns_of_noBlanks (solid symbol listed),
          Text.withoutReturns_append,
          Text.withoutReturns_of_noBlanks noBlanks] at kept
        exact unknown.noSymbol symbol listed kept

/-- A text that has no carriage return inside a first part of what is left without
them starts with this part. -/
theorem exists_of_withoutReturns_append
    {text left right : Text}
    (same : Text.withoutReturns text = left ++ right)
    (behind : ∀ before after, text = before ++ carriageReturn :: after ->
      left.length ≤ (Text.withoutReturns before).length) :
    ∃ rest, text = left ++ rest ∧ Text.withoutReturns rest = right := by
  induction left generalizing text with
  | nil => exact ⟨text, rfl, same⟩
  | cons byte left inductionHypothesis =>
      cases text with
      | nil => cases same
      | cons first text =>
          by_cases isReturn : first = carriageReturn
          · subst isReturn
            have noPart := behind [] text rfl
            cases noPart
          · rw [Text.withoutReturns_cons isReturn, List.cons_append,
              List.cons.injEq] at same
            obtain ⟨rfl, same⟩ := same
            obtain ⟨rest, rfl, isRest⟩ := inductionHypothesis same (by
              rintro before after rfl
              have later := behind (first :: before) after rfl
              rw [Text.withoutReturns_cons isReturn] at later
              exact Nat.le_of_succ_le_succ later)
            exact ⟨rest, rfl, isRest⟩

/-- A text that starts with no carriage return and has none inside the first
token starts with the lexeme of this token. -/
theorem exists_behind_lexeme
    {kind : Kind}
    {lexeme loaded text : Text}
    {tokens : List Token}
    (starts : first ≠ carriageReturn)
    (same : Text.withoutReturns (first :: text) = lexeme ++ loaded)
    (whole : ¬ Split offset (first :: text)
      (placed kind file offset lexeme :: tokens)) :
    ∃ rest, first :: text = lexeme ++ rest ∧
      Text.withoutReturns rest = loaded := by
  apply exists_of_withoutReturns_append same
  intro before after split
  by_contra short
  cases before with
  | nil => exact starts (List.cons.inj split).1
  | cons byte before =>
      obtain ⟨rfl, _⟩ := List.cons.inj split
      have isCons := Text.withoutReturns_cons starts before
      refine whole ⟨_, after, split, _, List.mem_cons_self, ?_,
        Nat.add_lt_add_left (Nat.lt_of_not_le short) offset⟩
      rw [isCons]
      exact Nat.lt_add_of_pos_right (Nat.succ_pos _)

/-- Carriage returns that are not put into tokens leave the tokens as they are. -/
theorem Scans.of_withoutReturns
    {text : Text}
    {tokens : List Token}
    (scans : Scans file offset (Text.withoutReturns text) tokens)
    (solid : Solid tokens)
    (whole : ¬ Split offset text tokens)
    (start : Nat) :
    ∃ others, Scans file start text others ∧
      others.map word = tokens.map word := by
  induction size : text.length using Nat.strongRecOn
    generalizing text offset start tokens with
  | ind size inductionHypothesis =>
      subst size
      cases text with
      | nil =>
          generalize same : Text.withoutReturns [] = loaded at scans
          cases scans with
          | nil => exact ⟨[], .nil start, rfl⟩
          | blank => cases same
          | lexeme isLexeme _ =>
              have isEmpty := (List.append_eq_nil_iff.mp same.symm).1
              exact (isLexeme.ne_nil isEmpty).elim
      | cons first text =>
          by_cases isReturn : first = carriageReturn
          · subst isReturn
            rw [Text.withoutReturns_return] at scans
            obtain ⟨others, othersScan, sameWords⟩ :=
              inductionHypothesis text.length (Nat.lt_succ_self _) scans solid
                (fun split => whole split.return) (start + 1) rfl
            exact ⟨others, .blank Text.isBlank_carriageReturn othersScan,
              sameWords⟩
          · have cons := Text.withoutReturns_cons isReturn text
            generalize same : Text.withoutReturns (first :: text) = loaded
              at scans cons
            cases scans with
            | nil => cases cons
            | @blank _ _ _ byte blank rest =>
                obtain ⟨rfl, rfl⟩ := List.cons.inj cons
                have kept : Text.withoutReturns [byte] = [byte] :=
                  Text.withoutReturns_cons isReturn []
                obtain ⟨others, othersScan, sameWords⟩ :=
                  inductionHypothesis text.length (Nat.lt_succ_self _) rest solid
                    (fun split => whole (split.prepend kept fun _ => id))
                    (start + 1) rfl
                exact ⟨others, .blank blank othersScan, sameWords⟩
            | @lexeme _ tokens kind lexeme _ isLexeme rest =>
                obtain ⟨lexemeSolid, behindSolid⟩ :=
                  List.forall_mem_cons.mp solid
                have kept := Text.withoutReturns_of_noBlanks lexemeSolid
                obtain ⟨behind, split, rfl⟩ :=
                  exists_behind_lexeme isReturn same whole
                have shorter : behind.length < (first :: text).length := by
                  have positive := List.length_pos_iff.mpr isLexeme.ne_nil
                  rw [split, List.length_append]
                  omega
                obtain ⟨others, othersScan, sameWords⟩ :=
                  inductionHypothesis behind.length shorter rest behindSolid
                    (fun inside => whole (split ▸ inside.prepend kept
                      fun _ => List.mem_cons_of_mem _))
                    (start + lexeme.length) rfl
                rw [split]
                exact ⟨_, .lexeme (isLexeme.of_withoutReturns lexemeSolid)
                  othersScan, congrArg (_ :: ·) sameWords⟩

/-! ## Leaving carriage returns out -/

theorem Scans.of_blank_cons
    {tokens : List Token}
    (scans : Scans file offset (byte :: text) tokens)
    (solid : Solid tokens)
    (blank : Text.isBlank byte = true) :
    Scans file (offset + 1) text tokens := by
  generalize same : byte :: text = whole at scans
  cases scans with
  | nil => cases same
  | blank _ rest =>
      obtain ⟨rfl, rfl⟩ := List.cons.inj same
      exact rest
  | @lexeme _ _ _ lexeme _ isLexeme _ =>
      obtain ⟨first, others, rfl⟩ :=
        List.exists_cons_of_ne_nil isLexeme.ne_nil
      obtain ⟨rfl, _⟩ := List.cons.inj same
      have notBlank : Text.isBlank byte = false :=
        solid _ List.mem_cons_self byte List.mem_cons_self
      rw [blank] at notBlank
      cases notBlank

theorem Scans.of_lexeme_append
    {lexeme text : Text}
    {first : Token}
    {tokens : List Token}
    (scans : Scans file offset (lexeme ++ text) (first :: tokens))
    (noBlanks : ∀ byte ∈ lexeme, Text.isBlank byte = false)
    (nonempty : lexeme ≠ [])
    (same : first.lexeme = lexeme) :
    first.span = ⟨file, offset, offset + lexeme.length⟩ ∧
      Scans file (offset + lexeme.length) text tokens := by
  generalize isWhole : lexeme ++ text = whole at scans
  cases scans with
  | blank blank _ =>
      obtain ⟨byte, others, rfl⟩ := List.exists_cons_of_ne_nil nonempty
      obtain ⟨rfl, _⟩ := List.cons.inj isWhole
      rw [noBlanks byte List.mem_cons_self] at blank
      cases blank
  | lexeme isLexeme rest =>
      subst same
      obtain rfl := List.append_cancel_left isWhole
      exact ⟨rfl, rest⟩

/-- A text that is scanned as the same words with its carriage returns as without
them has none inside a token.  A lexeme at the front has none, so a carriage return
inside a token stands behind it. -/
theorem Scans.not_split
    {tokens others : List Token}
    (othersScan : Scans file start text others)
    (othersSolid : Solid others)
    (scans : Scans file offset (Text.withoutReturns text) tokens)
    (solid : Solid tokens)
    (same : others.map word = tokens.map word) :
    ¬ Split offset text tokens := by
  induction othersScan generalizing offset tokens with
  | nil =>
      rintro ⟨before, after, split, _⟩
      simp at split
  | @blank start text others byte blank rest inductionHypothesis =>
      rintro ⟨before, after, split, token, member, inside⟩
      by_cases isReturn : byte = carriageReturn
      · subst isReturn
        rw [Text.withoutReturns_return] at scans
        cases before with
        | nil =>
            have starts := (scans.stands member).bounds.1
            exact absurd inside.1 (Nat.not_lt_of_le starts)
        | cons first before =>
            obtain ⟨rfl, isRest⟩ := List.cons.inj split
            rw [Text.withoutReturns_return] at inside
            exact inductionHypothesis othersSolid scans solid same
              ⟨before, after, isRest, token, member, inside⟩
      · rw [Text.withoutReturns_cons isReturn] at scans
        cases before with
        | nil => exact isReturn (List.cons.inj split).1
        | cons first before =>
            obtain ⟨rfl, isRest⟩ := List.cons.inj split
            rw [Text.withoutReturns_cons isReturn, List.length_cons,
              Nat.add_comm _ 1, ← Nat.add_assoc] at inside
            exact inductionHypothesis othersSolid
              (scans.of_blank_cons solid blank) solid same
              ⟨before, after, isRest, token, member, inside⟩
  | @lexeme start others kind lexeme text isLexeme rest inductionHypothesis =>
      cases tokens with
      | nil => cases same
      | cons first tokens =>
          obtain ⟨sameWord, sameWords⟩ := List.cons.inj same
          obtain ⟨lexemeSolid, behindOthersSolid⟩ :=
            List.forall_mem_cons.mp othersSolid
          have behindSolid := (List.forall_mem_cons.mp solid).2
          have kept : Text.withoutReturns lexeme = lexeme :=
            Text.withoutReturns_of_noBlanks lexemeSolid
          rw [Text.withoutReturns_append, kept] at scans
          obtain ⟨isSpan, behindScans⟩ :=
            scans.of_lexeme_append lexemeSolid isLexeme.ne_nil
              (congrArg Prod.snd sameWord).symm
          rintro ⟨before, after, split, token, member, inside⟩
          have behind : ∃ between, before = lexeme ++ between ∧
              text = between ++ carriageReturn :: after := by
            rcases List.append_eq_append_iff.mp split with
              ⟨between, isBefore, isText⟩ | ⟨between, inLexeme, isAfter⟩
            · exact ⟨between, isBefore, isText⟩
            · cases between with
              | nil =>
                  rw [List.append_nil] at inLexeme
                  exact ⟨[], by rw [inLexeme, List.append_nil], isAfter.symm⟩
              | cons byte between =>
                  obtain ⟨rfl, _⟩ := List.cons.inj isAfter
                  have member : carriageReturn ∈ lexeme := by
                    rw [inLexeme]
                    exact List.mem_append_right before List.mem_cons_self
                  have notBlank := lexemeSolid carriageReturn member
                  exact (Text.ne_carriageReturn notBlank rfl).elim
          obtain ⟨between, rfl, isText⟩ := behind
          rw [Text.withoutReturns_append, kept, List.length_append,
            ← Nat.add_assoc] at inside
          rcases List.mem_cons.mp member with rfl | isBehind
          · rw [isSpan] at inside
            exact absurd inside.2 (Nat.not_lt_of_le (Nat.le_add_right _ _))
          · exact inductionHypothesis behindOthersSolid behindScans behindSolid
              sameWords ⟨between, after, isText, token, isBehind, inside⟩

/-- What is left of a valid text without its carriage returns is valid. -/
theorem Scans.isUtf8_withoutReturns
    {tokens : List Token}
    (scans : Scans file offset text tokens)
    (solid : Solid tokens) :
    Text.IsUtf8 (Text.withoutReturns text) := by
  induction scans with
  | nil => exact Text.isUtf8_nil
  | @blank offset text tokens byte blank _ inductionHypothesis =>
      by_cases isReturn : byte = carriageReturn
      · subst isReturn
        rw [Text.withoutReturns_return]
        exact inductionHypothesis solid
      · rw [Text.withoutReturns_cons isReturn]
        exact (isUtf8_blank blank).append (inductionHypothesis solid)
  | @lexeme _ _ _ lexeme _ isLexeme _ inductionHypothesis =>
      obtain ⟨lexemeSolid, behindSolid⟩ := List.forall_mem_cons.mp solid
      have kept : Text.withoutReturns lexeme = lexeme :=
        Text.withoutReturns_of_noBlanks lexemeSolid
      rw [Text.withoutReturns_append, kept]
      exact isLexeme.isUtf8.append (inductionHypothesis behindSolid)

/-- Carriage returns at the ends of lines split no token. -/
theorem Scans.not_split_of_endsLines
    {tokens : List Token}
    (scans : Scans file 0 (Text.withoutReturns text) tokens)
    (solid : Solid tokens)
    (endsLines : text.EndsLines) :
    ¬ Split 0 text tokens := by
  rintro ⟨before, after, rfl, token, member, starts, ends⟩
  have stands := scans.stands member
  have bounds := stands.bounds.2
  have isSlice := stands.slice_eq.2
  rw [Nat.zero_add] at starts ends bounds
  rw [Text.withoutReturns_append, Text.withoutReturns_return] at isSlice bounds
  cases next : Text.withoutReturns after with
  | nil =>
      rw [next, List.append_nil] at bounds
      omega
  | cons byte rest =>
      have isNext : (Text.withoutReturns after).head? = some byte := by
        rw [next]
        rfl
      have blank := endsLines.isBlank_behind isNext
      have isByte : (Text.withoutReturns before ++
          Text.withoutReturns after)[(Text.withoutReturns before).length]? =
          some byte := by
        rw [List.getElem?_append_right (Nat.le_refl _), next, Nat.sub_self]
        rfl
      have inLexeme : byte ∈ token.lexeme := by
        rw [isSlice]
        exact Text.mem_slice isByte (Nat.le_of_lt starts) ends
      rw [solid token member byte inLexeme] at blank
      cases blank

end Token

/-! ## Loading a file -/

/-- The symbols of a source in order with their bytes, without their places. -/
def Lexed.wording (lexed : Lexed) : List (Token.Symbol × Text) :=
  lexed.stream.entries.map fun entry => (entry.symbol, entry.lexeme)

theorem Lexed.wording_eq_iff
    (left right : Lexed) :
    left.wording = right.wording ↔
      left.stream.tokens.map Token.word = right.stream.tokens.map Token.word := by
  have split : ∀ lexed : Lexed, lexed.wording =
      (lexed.stream.tokens.map Token.word).map
          (fun word => (.token word.1, word.2)) ++
        [(.endOfInput, [])] := by
    intro lexed
    simp [wording, TokenStream.entries, TokenStream.finishEntry,
      TokenStream.Entry.ofToken, Token.word, Function.comp_def]
  rw [split, split, List.append_cancel_right_eq]
  constructor
  · intro same
    refine List.map_injective_iff.mpr ?_ same
    rintro ⟨kind, lexeme⟩ ⟨otherKind, otherLexeme⟩ sameEntry
    simpa using sameEntry
  · exact congrArg _

theorem tokens_lex_of_isUtf8
    (file : Nat)
    (isUtf8 : source.IsUtf8) :
    (lex file source).stream.tokens = Token.scan file 0 source := by
  rw [lex_of_valid file ((Text.firstInvalid?_eq_none_iff source).mpr isUtf8)]

theorem tokens_lex_of_not_isUtf8
    (file : Nat)
    (notUtf8 : ¬ source.IsUtf8) :
    (lex file source).stream.tokens = [] := by
  rw [← Text.firstInvalid?_eq_none_iff, Option.eq_none_iff_forall_ne_some,
    not_forall] at notUtf8
  obtain ⟨offset, invalid⟩ := notUtf8
  rw [lex_of_invalid file (not_not.mp invalid)]

/-- Carriage returns between tokens can be left out. -/
theorem lex_of_not_split
    (file : Nat)
    {raw : Text}
    (isUtf8 : (Text.withoutReturns raw).IsUtf8)
    (whole : ¬ Token.Split 0 raw
      (lex file (Text.withoutReturns raw)).stream.tokens) :
    raw.IsUtf8 ∧
      (lex file (Text.withoutReturns raw)).wording = (lex file raw).wording := by
  rw [tokens_lex_of_isUtf8 file isUtf8] at whole
  have solid := Token.solid_scan file 0 isUtf8
  obtain ⟨others, othersScan, same⟩ :=
    (Token.scans_scan file 0 isUtf8).of_withoutReturns solid whole 0
  have rawIsUtf8 := othersScan.isUtf8
  refine ⟨rawIsUtf8, ?_⟩
  rw [Lexed.wording_eq_iff, tokens_lex_of_isUtf8 file isUtf8,
    tokens_lex_of_isUtf8 file rawIsUtf8,
    othersScan.scan_eq (solid.of_words same), same]

/-- A source that is lexed as the same words without its carriage returns has none
inside a token.  If it is not valid, it has no tokens at all. -/
theorem not_split_of_wording_eq
    {file : Nat}
    {raw : Text}
    (isUtf8 : (Text.withoutReturns raw).IsUtf8)
    (same : (lex file (Text.withoutReturns raw)).wording =
      (lex file raw).wording) :
    ¬ Token.Split 0 raw (lex file (Text.withoutReturns raw)).stream.tokens := by
  rw [Lexed.wording_eq_iff] at same
  rw [tokens_lex_of_isUtf8 file isUtf8] at same ⊢
  by_cases rawIsUtf8 : raw.IsUtf8
  · rw [tokens_lex_of_isUtf8 file rawIsUtf8] at same
    exact (Token.scans_scan file 0 rawIsUtf8).not_split
      (Token.solid_scan file 0 rawIsUtf8) (Token.scans_scan file 0 isUtf8)
      (Token.solid_scan file 0 isUtf8) same.symm
  · rw [tokens_lex_of_not_isUtf8 file rawIsUtf8, List.map_nil,
      List.map_eq_nil_iff] at same
    rw [same]
    rintro ⟨_, _, _, _, member, _⟩
    cases member

/-- Leaving the carriage returns out does not change the tokens of a file exactly
if none of them stands inside a token of the text that is left.  Then the text is
valid exactly if the file is, too.  All this is so if the carriage returns stand
at the ends of lines. -/
theorem fileText_keeps_tokens_iff
    (file : Nat)
    (content : Text) :
    let raw := dropByteOrderMark content
    let loaded := fileText content
    let split := Token.Split 0 raw (lex file loaded).stream.tokens
    ((lex file loaded).wording = (lex file raw).wording ↔ ¬ split) ∧
    (¬ split -> (loaded.IsUtf8 ↔ raw.IsUtf8)) ∧
    (raw.EndsLines -> ¬ split) := by
  intro raw loaded split
  have sameText : loaded = Text.withoutReturns raw := rfl
  have isUtf8_of_raw : raw.IsUtf8 -> loaded.IsUtf8 := fun isUtf8 =>
    (Token.scans_scan file 0 isUtf8).isUtf8_withoutReturns
      (Token.solid_scan file 0 isUtf8)
  by_cases isUtf8 : loaded.IsUtf8
  · refine ⟨⟨not_split_of_wording_eq isUtf8,
      fun whole => (lex_of_not_split file isUtf8 whole).2⟩,
      fun whole => ⟨fun _ => (lex_of_not_split file isUtf8 whole).1,
        isUtf8_of_raw⟩, ?_⟩
    intro endsLines
    change ¬ Token.Split 0 raw (lex file loaded).stream.tokens
    rw [tokens_lex_of_isUtf8 file isUtf8]
    exact (Token.scans_scan file 0 isUtf8).not_split_of_endsLines
      (Token.solid_scan file 0 isUtf8) endsLines
  · have rawNotUtf8 : ¬ raw.IsUtf8 := fun rawIsUtf8 =>
      isUtf8 (isUtf8_of_raw rawIsUtf8)
    have whole : ¬ split := by
      change ¬ Token.Split 0 raw (lex file loaded).stream.tokens
      rw [tokens_lex_of_not_isUtf8 file isUtf8]
      rintro ⟨_, _, _, _, member, _⟩
      cases member
    have same : (lex file loaded).wording = (lex file raw).wording := by
      rw [Lexed.wording_eq_iff, tokens_lex_of_not_isUtf8 file isUtf8,
        tokens_lex_of_not_isUtf8 file rawNotUtf8]
    exact ⟨iff_of_true same whole,
      fun _ => iff_of_false isUtf8 rawNotUtf8, fun _ => whole⟩

/-- With the line ends of some systems `(λx.` and `x)` stand on two lines of the
same program. -/
theorem fileText_keeps_tokens_iff_two_lines :
    let content : Text := "(λx.\r\nx)\r\n"
    content.EndsLines ∧
      (lex 0 (fileText content)).wording =
        (lex 0 (dropByteOrderMark content)).wording ∧
      ((fileText content).IsUtf8 ↔ (dropByteOrderMark content).IsUtf8) := by
  intro content
  have neighbours : (content.zip content.tail).all (fun pair =>
      decide (pair.1 = carriageReturn -> Text.isBlank pair.2 = true)) = true := by
    decide +kernel
  have endsLines : content.EndsLines :=
    Text.endsLines_of_neighbours fun pair member =>
      of_decide_eq_true (List.all_eq_true.mp neighbours pair member)
  have noMark : dropByteOrderMark content = content := by decide +kernel
  obtain ⟨keeps, valid, whole⟩ := fileText_keeps_tokens_iff 0 content
  have notSplit := whole (noMark.symm ▸ endsLines)
  exact ⟨endsLines, keeps.mpr notSplit, valid notSplit⟩

/-- The carriage return between two names is left out, and so they are read as one
name.  The halves of a lambda with a carriage return between them are not valid,
and they are read as a lambda. -/
theorem fileText_joins_tokens :
    let names : Text := "(λx.(x\rx))"
    let halves : Text := [0xCE, carriageReturn, 0xBB]
    (lex 0 (fileText names)).wording ≠
        (lex 0 (dropByteOrderMark names)).wording ∧
      (lex 0 (fileText halves)).wording ≠
        (lex 0 (dropByteOrderMark halves)).wording ∧
      ¬ (dropByteOrderMark halves).IsUtf8 ∧ (fileText halves).IsUtf8 := by
  intro names halves
  refine ⟨by decide +kernel, by decide +kernel, ?_, ?_⟩
  · rw [← Text.firstInvalid?_eq_none_iff]
    decide +kernel
  · rw [← Text.firstInvalid?_eq_none_iff]
    decide +kernel

end LambdaCalculus
