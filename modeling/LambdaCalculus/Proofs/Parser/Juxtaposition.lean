import LambdaCalculus.Proofs.Parser.Translation
import LambdaCalculus.Proofs.Term.RoundTrip
import LambdaCalculus.Proofs.Token.Pieces

/-!
# Programs behind each other

A text without unknown characters is scanned in the same way wherever it stands,
as long as its last identifier is not made longer.  The grammar looks at the
kinds and the lexemes of tokens, not at their places.  So two programs behind
each other in parentheses are one program: the first one applied to the second
one.
-/

namespace LambdaCalculus

/-! ## Places of tokens -/

namespace Token

/-- The same token in a source with the given number, and so much further
behind. -/
def moved
    (file shift : Nat)
    (token : Token) : Token :=
  { token with
    span := ⟨file, shift + token.span.lo, shift + token.span.hi⟩ }

/-- Where a text starts plays no part in scanning it. -/
theorem scan_moved
    (file newFile shift offset : Nat)
    (text : Text) :
    scan newFile (shift + offset) text =
      (scan file offset text).map (moved newFile shift) := by
  fun_induction scan file offset text with
  | case1 => rw [scan, List.map_nil]
  | case2 offset first rest blank inductionHypothesis =>
      rw [scan, if_pos blank, Nat.add_assoc, inductionHypothesis]
  | case3 offset first rest notBlank further lexeme inductionHypothesis =>
      rw [scan, if_neg notBlank, List.map_cons, ← inductionHypothesis,
        ← Nat.add_assoc]
      simp only [moved, Nat.add_assoc, lexeme, further]

/-- A text without unknown characters is scanned by itself. -/
theorem Scans.spells
    (scans : Scans file offset text tokens)
    (noErrors : Grammar.NoErrors tokens) :
    Spells file offset text tokens := by
  induction scans with
  | nil offset => exact spells_nil file offset
  | blank blank rest inductionHypothesis =>
      exact (inductionHypothesis noErrors).blank_append blank
  | @lexeme offset tokens kind lexeme text isLexeme rest inductionHypothesis =>
      obtain ⟨known, restNoErrors⟩ := (Grammar.noErrors_cons _ _).mp noErrors
      have restSpells := inductionHypothesis restNoErrors
      cases isLexeme with
      | identifier nonempty letters ends =>
          have isName := (Text.isIdentifier_iff lexeme).mpr ⟨nonempty, letters⟩
          exact (spells_identifier file offset lexeme isName).append restSpells
            ends
      | symbol listed => exact restSpells.spelling_append listed
      | error character unknown => exact (known rfl).elim

end Token

namespace Grammar

section Map

variable {change : Token -> Token}

mutual

theorem IsAtom.map
    (kinds : ∀ token, (change token).kind = token.kind)
    (lexemes : ∀ token, (change token).lexeme = token.lexeme) :
    IsAtom tokens tree -> IsAtom (tokens.map change) tree
  | .name isName => by
      rw [← lexemes]
      exact .name ((kinds _).trans isName)
  | .group isLeft inner isRight => by
      rw [List.map_cons, List.map_append]
      exact .group ((kinds _).trans isLeft) (inner.map kinds lexemes)
        ((kinds _).trans isRight)

theorem IsType.map
    (kinds : ∀ token, (change token).kind = token.kind)
    (lexemes : ∀ token, (change token).lexeme = token.lexeme) :
    IsType tokens tree -> IsType (tokens.map change) tree
  | .atom isAtom => .atom (isAtom.map kinds lexemes)
  | .arrow isParameter isArrow isResult => by
      rw [List.map_append, List.map_cons]
      exact .arrow (isParameter.map kinds lexemes) ((kinds _).trans isArrow)
        (isResult.map kinds lexemes)

end

theorem IsDeclaration.map
    (kinds : ∀ token, (change token).kind = token.kind)
    (lexemes : ∀ token, (change token).lexeme = token.lexeme)
    (isDeclaration : IsDeclaration tokens annotation) :
    IsDeclaration (tokens.map change) annotation := by
  cases isDeclaration with
  | empty => exact .empty
  | dot isDot => exact .dot ((kinds _).trans isDot)
  | declared isColon isType isDot =>
      rw [List.map_cons, List.map_append]
      exact .declared ((kinds _).trans isColon) (isType.map kinds lexemes)
        ((kinds _).trans isDot)

mutual

/-- The grammar looks at the kinds and the lexemes of tokens only. -/
theorem IsTerm.map
    (kinds : ∀ token, (change token).kind = token.kind)
    (lexemes : ∀ token, (change token).lexeme = token.lexeme) :
    IsTerm tokens named -> IsTerm (tokens.map change) named
  | .name isName => by
      rw [← lexemes]
      exact .name ((kinds _).trans isName)
  | .abs isLeft isLambda isBinder isDeclaration isBody isRight => by
      rw [← lexemes]
      simp only [List.map_cons, List.map_append]
      exact .abs ((kinds _).trans isLeft) ((kinds _).trans isLambda)
        ((kinds _).trans isBinder) (isDeclaration.map kinds lexemes)
        (isBody.map kinds lexemes) ((kinds _).trans isRight)
  | .app isLeft isFunction areArguments nonempty isRight => by
      simp only [List.map_cons, List.map_append]
      exact .app ((kinds _).trans isLeft) (isFunction.map kinds lexemes)
        (areArguments.map kinds lexemes) nonempty ((kinds _).trans isRight)

theorem AreTerms.map
    (kinds : ∀ token, (change token).kind = token.kind)
    (lexemes : ∀ token, (change token).lexeme = token.lexeme) :
    AreTerms tokens terms -> AreTerms (tokens.map change) terms
  | .nil => .nil
  | .cons isTerm areTerms => by
      rw [List.map_append]
      exact .cons (isTerm.map kinds lexemes) (areTerms.map kinds lexemes)

end

end Map

/-- A program is one wherever it stands: moved back to the start of the source, its
tokens can go anywhere. -/
theorem IsTerm.moved
    (isTerm : IsTerm (Token.scan file start text) named)
    (newFile offset : Nat) :
    IsTerm (Token.scan newFile offset text) named := by
  let back : Token -> Token := fun token =>
    { token with
      span := ⟨newFile, token.span.lo - start, token.span.hi - start⟩ }
  have atStart : (Token.scan file start text).map back =
      Token.scan newFile 0 text := by
    have there := Token.scan_moved file file start 0 text
    have here := Token.scan_moved file newFile 0 0 text
    rw [Nat.add_zero] at there here
    rw [there, here, List.map_map]
    apply List.map_congr_left
    intro token _
    simp [back, Token.moved]
  have isTermBack : IsTerm ((Token.scan file start text).map back) named :=
    isTerm.map (fun _ => rfl) (fun _ => rfl)
  rw [atStart] at isTermBack
  have moved : IsTerm ((Token.scan newFile 0 text).map
      (Token.moved newFile offset)) named :=
    isTermBack.map (fun _ => rfl) (fun _ => rfl)
  rwa [← Token.scan_moved, Nat.add_zero] at moved

end Grammar

/-! ## Two programs in parentheses -/

/-- Two texts behind each other in parentheses. -/
def juxtaposed (function argument : Text) : Text :=
  "(" ++ function ++ " " ++ argument ++ ")"

theorem juxtaposed_eq
    (function argument : Text) :
    juxtaposed function argument =
      0x28 :: ((function ++ 0x20 :: argument) ++ [0x29]) := by
  have opening : Text.ofString "(" = [0x28] := by decide
  have blank : Text.ofString " " = [0x20] := by decide
  have closing : Text.ofString ")" = [0x29] := by decide
  simp [juxtaposed, opening, blank, closing]

/-- Two programs behind each other in parentheses spell an application. -/
theorem isTerm_juxtaposed
    (file : Nat)
    (functionValid : Text.firstInvalid? function = none)
    (isFunction : Grammar.IsTerm (Token.scan file 0 function) namedFunction)
    (argumentValid : Text.firstInvalid? argument = none)
    (isArgument : Grammar.IsTerm (Token.scan file 0 argument) namedArgument) :
    Text.firstInvalid? (juxtaposed function argument) = none ∧
      Grammar.IsTerm (Token.scan file 0 (juxtaposed function argument))
        (.app namedFunction namedArgument) := by
  have isFunctionMoved := isFunction.moved file 1
  have isArgumentMoved := isArgument.moved file (1 + function.length + 1)
  have functionSpells :=
    (Token.scans_scan file 1
      ((Text.firstInvalid?_eq_none_iff function).mp functionValid)).spells
      isFunctionMoved.noErrors
  have argumentSpells :=
    (Token.scans_scan file (1 + function.length + 1)
      ((Text.firstInvalid?_eq_none_iff argument).mp argumentValid)).spells
      isArgumentMoved.noErrors
  have functionSpine : Term.SpellsSpine file 1 function namedFunction [] := by
    refine ⟨_, [], ?_, isFunctionMoved, .nil⟩
    rwa [List.append_nil]
  obtain ⟨tokens, wholeSpells, isWhole⟩ :=
    (functionSpine.apply argumentSpells isArgumentMoved).enclose
      (List.cons_ne_nil _ _)
  rw [juxtaposed_eq]
  refine ⟨wholeSpells.valid, ?_⟩
  rw [wholeSpells.scan_eq]
  exact isWhole

/-- Two programs are parsed one behind the other as they are parsed together:
into the same pool, without any diagnostic, and the term is the first one
applied to the second one wherever its nodes are said to stand. -/
theorem parse_juxtaposed
    (functionParsed : (parse file function types []).term.isSome = true)
    (argumentParsed : (parse file argument types []).term.isSome = true)
    (functionFile argumentFile wholeFile : Nat) :
    ∃ first second between later application,
      parse functionFile function types [] = ⟨some first, between, []⟩ ∧
      parse argumentFile argument between [] = ⟨some second, later, []⟩ ∧
      parse wholeFile (juxtaposed function argument) types [] =
        ⟨some application, later, []⟩ ∧
      application.withoutSpans =
        .app .nowhere first.withoutSpans second.withoutSpans := by
  obtain ⟨_, functionParsed⟩ := Option.isSome_iff_exists.mp functionParsed
  obtain ⟨_, argumentParsed⟩ := Option.isSome_iff_exists.mp argumentParsed
  obtain ⟨functionValid, namedFunction, isFunction, functionResolved⟩ :=
    parse_sound functionParsed
  obtain ⟨argumentValid, namedArgument, isArgument, argumentResolved⟩ :=
    parse_sound argumentParsed
  have argumentBound := (namedArgument.exists_resolve_iff [] types).mp
    ⟨_, argumentResolved⟩
  obtain ⟨first, firstParsed, firstSame⟩ := parse_complete functionFile []
    functionValid (isFunction.moved functionFile 0) functionResolved rfl
  obtain ⟨⟨_, later⟩, argumentResolvedBehind⟩ :=
    (namedArgument.exists_resolve_iff []
      (parse file function types []).types).mpr argumentBound
  obtain ⟨second, secondParsed, secondSame⟩ := parse_complete argumentFile []
    argumentValid (isArgument.moved argumentFile 0) argumentResolvedBehind rfl
  obtain ⟨wholeValid, isWhole⟩ := isTerm_juxtaposed wholeFile
    functionValid (isFunction.moved wholeFile 0)
    argumentValid (isArgument.moved wholeFile 0)
  have wholeResolved :
      (NamedTerm.app namedFunction namedArgument).resolve [] types =
        some (.app .nowhere first.withoutSpans second.withoutSpans, later) := by
    rw [firstSame, secondSame]
    simp only [NamedTerm.resolve, functionResolved, Option.bind_some,
      argumentResolvedBehind, Option.map_some]
  obtain ⟨application, wholeParsed, wholeSame⟩ := parse_complete wholeFile []
    wholeValid isWhole wholeResolved rfl
  exact ⟨first, second, _, later, application, firstParsed, secondParsed,
    wholeParsed, wholeSame⟩

end LambdaCalculus
