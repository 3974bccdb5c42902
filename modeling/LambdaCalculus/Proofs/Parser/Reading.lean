import LambdaCalculus.Proofs.Parser.Grammar

/-!
# How the spans of a term come about

The grammar says which named term some tokens stand for, not where its nodes
stand.  An application is read argument by argument: as long as its right
parenthesis has not been read it is unclosed, and it reaches from its left
parenthesis to the last argument so far.  Only the outermost application between
two parentheses is closed, and then it reaches to the right one.
-/

namespace LambdaCalculus
namespace Grammar

/-! ## Unclosed applications -/

/-- The tokens are an application without its right parenthesis. -/
inductive IsUnclosed : List Token -> NamedTerm -> Prop
  | app
      {left : Token}
      {functionTokens argumentTokens : List Token}
      (isLeft : left.kind = .leftParenthesis)
      (isFunction : IsTerm functionTokens function)
      (areArguments : AreTerms argumentTokens arguments)
      (nonempty : arguments ≠ []) :
      IsUnclosed (left :: (functionTokens ++ argumentTokens))
        (arguments.foldl .app function)

namespace IsUnclosed

theorem first
    {left : Token}
    (isLeft : left.kind = .leftParenthesis)
    (isFunction : IsTerm functionTokens function)
    (isArgument : IsTerm argumentTokens argument) :
    IsUnclosed (left :: (functionTokens ++ argumentTokens))
      (.app function argument) :=
  .app isLeft isFunction (.single isArgument) (List.cons_ne_nil _ _)

theorem apply
    (isUnclosed : IsUnclosed tokens function)
    (isArgument : IsTerm argumentTokens argument) :
    IsUnclosed (tokens ++ argumentTokens) (.app function argument) := by
  cases isUnclosed with
  | app isLeft isFunction areArguments nonempty =>
      have extended := IsUnclosed.app isLeft isFunction
        (areArguments.append (.single isArgument))
        (List.append_ne_nil_of_right_ne_nil _ (List.cons_ne_nil _ _))
      rwa [List.foldl_append, ← List.append_assoc] at extended

theorem close
    {right : Token}
    (isUnclosed : IsUnclosed tokens named)
    (isRight : right.kind = .rightParenthesis) :
    IsTerm (tokens ++ [right]) named := by
  cases isUnclosed with
  | app isLeft isFunction areArguments nonempty =>
      have closed := IsTerm.app isLeft isFunction areArguments nonempty isRight
      rwa [← List.append_assoc] at closed

theorem noErrors
    (isUnclosed : IsUnclosed tokens named) :
    NoErrors tokens := by
  cases isUnclosed with
  | app isLeft isFunction areArguments _ =>
      simp [isLeft, isFunction.noErrors, areArguments.noErrors]

end IsUnclosed

/-- What tokens stand for that are closed, or not yet. -/
def Derives : Bool -> List Token -> NamedTerm -> Prop
  | true => IsTerm
  | false => IsUnclosed

/-! ## Spans -/

/-- The tokens, which are closed or not yet, are read as the named term, and the
nodes of the term have the spans that they are given on the way. -/
inductive Reads : Bool -> List Token -> NamedTerm -> Term -> Prop
  | name
      {token : Token}
      (isName : token.kind = .identifier)
      (index : Nat) :
      Reads true [token] (.var token.lexeme) (.var token.span index)
  | abs
      {left lambda binder right : Token}
      {declarationTokens bodyTokens : List Token}
      (isLeft : left.kind = .leftParenthesis)
      (isLambda : lambda.kind = .lambda)
      (isBinder : binder.kind = .identifier)
      (isDeclaration : IsDeclaration declarationTokens declared)
      (number : Option TypeId)
      (readsBody : Reads true bodyTokens namedBody body)
      (isRight : right.kind = .rightParenthesis) :
      Reads true
        (left :: lambda :: binder ::
          (declarationTokens ++ (bodyTokens ++ [right])))
        (.abs binder.lexeme declared namedBody)
        (.abs (left.span.join right.span) number body)
  | first
      {left : Token}
      {functionTokens argumentTokens : List Token}
      (isLeft : left.kind = .leftParenthesis)
      (readsFunction : Reads true functionTokens namedFunction function)
      (readsArgument : Reads true argumentTokens namedArgument argument) :
      Reads false (left :: (functionTokens ++ argumentTokens))
        (.app namedFunction namedArgument)
        (.app (left.span.join argument.span) function argument)
  | further
      {left : Token}
      {frontTokens argumentTokens : List Token}
      (readsFunction : Reads false (left :: frontTokens) namedFunction function)
      (readsArgument : Reads true argumentTokens namedArgument argument) :
      Reads false (left :: (frontTokens ++ argumentTokens))
        (.app namedFunction namedArgument)
        (.app (left.span.join argument.span) function argument)
  | close
      {left right : Token}
      {tokens : List Token}
      (reads : Reads false (left :: tokens) named term)
      (isRight : right.kind = .rightParenthesis) :
      Reads true (left :: (tokens ++ [right])) named
        (term.withSpan (left.span.join right.span))

/-- The grammar derives the tokens that are read. -/
theorem Reads.derives
    (reads : Reads closed tokens named term) :
    Derives closed tokens named := by
  induction reads with
  | name isName _ => exact IsTerm.name isName
  | abs isLeft isLambda isBinder isDeclaration _ _ isRight bodyHypothesis =>
      exact IsTerm.abs isLeft isLambda isBinder isDeclaration bodyHypothesis
        isRight
  | first isLeft _ _ functionHypothesis argumentHypothesis =>
      exact IsUnclosed.first isLeft functionHypothesis argumentHypothesis
  | further _ _ functionHypothesis argumentHypothesis =>
      exact IsUnclosed.apply functionHypothesis argumentHypothesis
  | close _ isRight inductionHypothesis =>
      exact IsUnclosed.close inductionHypothesis isRight

theorem Reads.isTerm
    (reads : Reads true tokens named term) :
    IsTerm tokens named :=
  reads.derives

theorem Reads.noErrors
    (reads : Reads closed tokens named term) :
    NoErrors tokens := by
  cases closed with
  | true => exact IsTerm.noErrors reads.derives
  | false => exact IsUnclosed.noErrors reads.derives

theorem Reads.ne_nil
    (reads : Reads closed tokens named term) :
    tokens ≠ [] := by
  cases reads <;> exact List.cons_ne_nil _ _

/-- The left parenthesis and the tokens behind it are read as a function, which
stands there by itself or is an unclosed application. -/
def ReadsFunction
    (left : Token)
    (tokens : List Token)
    (named : NamedTerm)
    (function : Term) : Prop :=
  left.kind = .leftParenthesis ∧ Reads true tokens named function ∨
    Reads false (left :: tokens) named function

theorem ReadsFunction.apply
    (readsFunction : ReadsFunction left tokens namedFunction function)
    (readsArgument : Reads true argumentTokens namedArgument argument) :
    Reads false (left :: (tokens ++ argumentTokens))
      (.app namedFunction namedArgument)
      (.app (left.span.join argument.span) function argument) := by
  rcases readsFunction with ⟨isLeft, alone⟩ | unclosed
  · exact .first isLeft alone readsArgument
  · exact .further unclosed readsArgument

/-! ## The parts of what is read -/

/-- An unclosed application is read from its function and its last argument. -/
theorem Reads.of_unclosed
    (reads : Reads false tokens named term) :
    ∃ left front argumentTokens namedFunction namedArgument function argument,
      tokens = left :: (front ++ argumentTokens) ∧
      named = .app namedFunction namedArgument ∧
      term = .app (left.span.join argument.span) function argument ∧
      ReadsFunction left front namedFunction function ∧
      Reads true argumentTokens namedArgument argument := by
  cases reads with
  | first isLeft readsFunction readsArgument =>
      exact ⟨_, _, _, _, _, _, _, rfl, rfl, rfl,
        Or.inl ⟨isLeft, readsFunction⟩, readsArgument⟩
  | further readsFunction readsArgument =>
      exact ⟨_, _, _, _, _, _, _, rfl, rfl, rfl, Or.inr readsFunction,
        readsArgument⟩

/-- An application is read from its function and its last argument, whether it
is closed behind them or not. -/
theorem Reads.of_app
    (reads : Reads closed tokens named (.app span function argument)) :
    ∃ left front argumentTokens behind namedFunction namedArgument,
      tokens = left :: (front ++ (argumentTokens ++ behind)) ∧
      named = .app namedFunction namedArgument ∧
      ReadsFunction left front namedFunction function ∧
      Reads true argumentTokens namedArgument argument := by
  generalize same : Term.app span function argument = term at reads
  cases reads with
  | name => cases same
  | abs => cases same
  | first isLeft readsFunction readsArgument =>
      cases same
      refine ⟨_, _, _, [], _, _, ?_, rfl, Or.inl ⟨isLeft, readsFunction⟩,
        readsArgument⟩
      rw [List.append_nil]
  | further readsFunction readsArgument =>
      cases same
      refine ⟨_, _, _, [], _, _, ?_, rfl, Or.inr readsFunction, readsArgument⟩
      rw [List.append_nil]
  | @close _ _ left right tokens unclosed isRight =>
      obtain ⟨_, front, argumentTokens, _, _, _, _, split, isNamed, rfl,
        readsFunction, readsArgument⟩ := unclosed.of_unclosed
      obtain ⟨rfl, rfl⟩ := List.cons.inj split
      cases same
      refine ⟨left, front, argumentTokens, [right], _, _, ?_, isNamed,
        readsFunction, readsArgument⟩
      rw [List.append_assoc]

/-- An abstraction is read from its binder and its body. -/
theorem Reads.of_abs
    (reads : Reads closed tokens named (.abs span number body)) :
    ∃ binder declared namedBody bodyTokens,
      named = .abs binder.lexeme declared namedBody ∧
      binder.kind = .identifier ∧ binder ∈ tokens ∧ bodyTokens <:+: tokens ∧
      Reads true bodyTokens namedBody body := by
  generalize same : Term.abs span number body = term at reads
  cases reads with
  | name => cases same
  | first => cases same
  | further => cases same
  | @abs _ _ _ left lambda binder right declarationTokens bodyTokens _ _
      isBinder _ _ readsBody _ =>
      cases same
      refine ⟨binder, _, _, bodyTokens, rfl, isBinder, by simp, ?_, readsBody⟩
      exact ⟨left :: lambda :: binder :: declarationTokens, [right], by simp⟩
  | close unclosed _ =>
      obtain ⟨_, _, _, _, _, _, _, _, _, rfl, _⟩ := unclosed.of_unclosed
      cases same

end Grammar
end LambdaCalculus
