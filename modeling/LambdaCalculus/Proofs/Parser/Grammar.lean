import LambdaCalculus.Parser.Program
import LambdaCalculus.Proofs.Types.Interning

/-!
# The grammar of programs

Which lists of tokens are types, declarations and terms, with the tree that
each stands for.  A named term still has its names; resolving it in a scope
replaces each name by the index of its innermost binder and each declared type
by its number.

* a term is a name, or `(λ name declaration term)`, or a function and one or
  more arguments in parentheses;
* a declaration is empty, a dot, or a colon, a type and a dot;
* a type is an atom, or an atom, an arrow and a type;
* an atom is a name, or a type in parentheses.
-/

namespace LambdaCalculus

/-- A term in which variables and binders have names. -/
inductive NamedTerm
  /-- A variable. -/
  | var (name : Text)
  /-- A function of one argument, whose type may be declared. -/
  | abs (binder : Text) (declared : Option TypeTree) (body : NamedTerm)
  /-- A function applied to an argument. -/
  | app (function argument : NamedTerm)
deriving DecidableEq

namespace NamedTerm

/-- Numbers the declared type of a binder, if there is one. -/
def numberDeclared : Option TypeTree -> TypePool -> Option TypeId × TypePool
  | none, types => (none, types)
  | some tree, types => (some (tree.number types).1, (tree.number types).2)

/-- The term that a named term stands for in a scope, with the pool in which
its types are numbered; `none` if a variable is not in scope. -/
def resolve : NamedTerm -> Scope -> TypePool -> Option (Term × TypePool)
  | .var name, scope, types =>
      (scope.index? name).map fun index => (.var .nowhere index, types)
  | .abs binder declared body, scope, types =>
      (body.resolve (scope.extend binder) (numberDeclared declared types).2).map
        fun (body, later) =>
          (.abs .nowhere (numberDeclared declared types).1 body, later)
  | .app function argument, scope, types =>
      (function.resolve scope types).bind fun (function, middle) =>
        (argument.resolve scope middle).map fun (argument, later) =>
          (.app .nowhere function argument, later)

/-- If a function resolves together with arguments, it resolves alone. -/
theorem exists_resolve_of_foldl
    (arguments : List NamedTerm)
    (function : NamedTerm)
    (resolved : (arguments.foldl .app function).resolve scope types =
      some whole) :
    ∃ part, function.resolve scope types = some part := by
  induction arguments generalizing function with
  | nil => exact ⟨whole, resolved⟩
  | cons argument rest inductionHypothesis =>
      obtain ⟨part, partResolved⟩ :=
        inductionHypothesis (.app function argument) resolved
      simp only [resolve, Option.bind_eq_some_iff] at partResolved
      obtain ⟨functionPart, functionResolved, _⟩ := partResolved
      exact ⟨functionPart, functionResolved⟩

end NamedTerm

namespace Grammar

/-! ## Types -/

mutual

/-- The tokens are an atom of a type. -/
inductive IsAtom : List Token -> TypeTree -> Prop
  | name
      {token : Token}
      (isName : token.kind = .identifier) :
      IsAtom [token] (.base token.lexeme)
  | group
      {left right : Token}
      {tokens : List Token}
      (isLeft : left.kind = .leftParenthesis)
      (inner : IsType tokens tree)
      (isRight : right.kind = .rightParenthesis) :
      IsAtom (left :: (tokens ++ [right])) tree

/-- The tokens are a type. -/
inductive IsType : List Token -> TypeTree -> Prop
  | atom
      (isAtom : IsAtom tokens tree) :
      IsType tokens tree
  | arrow
      {parameterTokens resultTokens : List Token}
      {arrow : Token}
      (isParameter : IsAtom parameterTokens parameter)
      (isArrow : arrow.kind = .arrow)
      (isResult : IsType resultTokens result) :
      IsType (parameterTokens ++ arrow :: resultTokens)
        (.arrow parameter result)

end

/-- The tokens may stand between the name and the body of an abstraction. -/
inductive IsDeclaration : List Token -> Option TypeTree -> Prop
  | empty : IsDeclaration [] none
  | dot
      {dot : Token}
      (isDot : dot.kind = .dot) :
      IsDeclaration [dot] none
  | declared
      {colon dot : Token}
      {tokens : List Token}
      (isColon : colon.kind = .colon)
      (isType : IsType tokens tree)
      (isDot : dot.kind = .dot) :
      IsDeclaration (colon :: (tokens ++ [dot])) (some tree)

/-! ## Terms -/

mutual

/-- The tokens are a term. -/
inductive IsTerm : List Token -> NamedTerm -> Prop
  | name
      {token : Token}
      (isName : token.kind = .identifier) :
      IsTerm [token] (.var token.lexeme)
  | abs
      {left lambda binder right : Token}
      {declarationTokens bodyTokens : List Token}
      (isLeft : left.kind = .leftParenthesis)
      (isLambda : lambda.kind = .lambda)
      (isBinder : binder.kind = .identifier)
      (isDeclaration : IsDeclaration declarationTokens declared)
      (isBody : IsTerm bodyTokens body)
      (isRight : right.kind = .rightParenthesis) :
      IsTerm
        (left :: lambda :: binder ::
          (declarationTokens ++ (bodyTokens ++ [right])))
        (.abs binder.lexeme declared body)
  | app
      {left right : Token}
      {functionTokens argumentTokens : List Token}
      (isLeft : left.kind = .leftParenthesis)
      (isFunction : IsTerm functionTokens function)
      (areArguments : AreTerms argumentTokens arguments)
      (nonempty : arguments ≠ [])
      (isRight : right.kind = .rightParenthesis) :
      IsTerm (left :: (functionTokens ++ (argumentTokens ++ [right])))
        (arguments.foldl .app function)

/-- The tokens are terms one behind the other. -/
inductive AreTerms : List Token -> List NamedTerm -> Prop
  | nil : AreTerms [] []
  | cons
      {firstTokens restTokens : List Token}
      (isTerm : IsTerm firstTokens first)
      (areTerms : AreTerms restTokens rest) :
      AreTerms (firstTokens ++ restTokens) (first :: rest)

end

theorem AreTerms.append
    (left : AreTerms leftTokens leftTerms)
    (right : AreTerms rightTokens rightTerms) :
    AreTerms (leftTokens ++ rightTokens) (leftTerms ++ rightTerms) := by
  induction leftTerms generalizing leftTokens with
  | nil =>
      cases left
      exact right
  | cons first rest inductionHypothesis =>
      cases left with
      | cons isTerm areTerms =>
          rw [List.append_assoc, List.cons_append]
          exact .cons isTerm (inductionHypothesis areTerms)

theorem AreTerms.single
    (isTerm : IsTerm tokens named) :
    AreTerms tokens [named] := by
  have single := AreTerms.cons isTerm .nil
  rwa [List.append_nil] at single

/-- An arrow behind a parameter in parentheses. -/
theorem IsType.arrow_of_group
    {left right arrow : Token}
    (isLeft : left.kind = .leftParenthesis)
    (isParameter : IsType parameterTokens parameter)
    (isRight : right.kind = .rightParenthesis)
    (isArrow : arrow.kind = .arrow)
    (isResult : IsType resultTokens result) :
    IsType (left :: (parameterTokens ++ right :: arrow :: resultTokens))
      (.arrow parameter result) := by
  simpa using IsType.arrow (.group isLeft isParameter isRight) isArrow isResult

/-! ## First tokens -/

/-- A type starts with a name or a left parenthesis, and so is not empty. -/
theorem IsAtom.length_pos
    (isAtom : IsAtom tokens tree) :
    0 < tokens.length := by
  cases isAtom <;> simp

theorem IsType.length_pos
    (isType : IsType tokens tree) :
    0 < tokens.length := by
  cases isType with
  | atom isAtom => exact isAtom.length_pos
  | arrow _ _ _ =>
      simp only [List.length_append, List.length_cons]
      omega

/-- A term starts with a name or a left parenthesis. -/
theorem IsTerm.first
    (isTerm : IsTerm tokens named) :
    ∃ first rest, tokens = first :: rest ∧
      (first.kind = .identifier ∨ first.kind = .leftParenthesis) := by
  cases isTerm with
  | name isName => exact ⟨_, _, rfl, Or.inl isName⟩
  | abs isLeft _ _ _ _ _ => exact ⟨_, _, rfl, Or.inr isLeft⟩
  | app isLeft _ _ _ _ => exact ⟨_, _, rfl, Or.inr isLeft⟩

/-- No other kind of token starts a term. -/
theorem kind_ne_of_startsTerm
    {token : Token}
    {kind : Token.Kind}
    (startsTerm : token.kind = .identifier ∨ token.kind = .leftParenthesis)
    (other : kind ≠ .identifier ∧ kind ≠ .leftParenthesis) :
    token.kind ≠ kind := by
  rintro rfl
  exact startsTerm.elim other.1 other.2

theorem IsTerm.length_pos
    (isTerm : IsTerm tokens named) :
    0 < tokens.length := by
  obtain ⟨first, rest, rfl, _⟩ := isTerm.first
  simp

/-- A term does not start with a lambda. -/
theorem IsTerm.head?_ne_lambda
    (isTerm : IsTerm tokens named)
    (rest : List Token) :
    (tokens ++ rest).head?.map Token.kind ≠ some .lambda := by
  obtain ⟨first, others, rfl, startsTerm⟩ := isTerm.first
  have notLambda : first.kind ≠ .lambda :=
    kind_ne_of_startsTerm startsTerm (by decide)
  simpa using notLambda

/-! ## No error tokens -/

/-- None of the tokens is a character outside the alphabet. -/
def NoErrors (tokens : List Token) : Prop :=
  ∀ token ∈ tokens, token.kind ≠ .error

@[simp] theorem noErrors_nil : NoErrors [] := by
  simp [NoErrors]

@[simp] theorem noErrors_cons
    (token : Token)
    (tokens : List Token) :
    NoErrors (token :: tokens) ↔ token.kind ≠ .error ∧ NoErrors tokens :=
  List.forall_mem_cons

@[simp] theorem noErrors_append
    (left right : List Token) :
    NoErrors (left ++ right) ↔ NoErrors left ∧ NoErrors right :=
  List.forall_mem_append

mutual

theorem IsAtom.noErrors : IsAtom tokens tree -> NoErrors tokens
  | .name isName => by simp [isName]
  | .group isLeft inner isRight => by
      simp [isLeft, inner.noErrors, isRight]

theorem IsType.noErrors : IsType tokens tree -> NoErrors tokens
  | .atom isAtom => isAtom.noErrors
  | .arrow isParameter isArrow isResult => by
      simp [isParameter.noErrors, isArrow, isResult.noErrors]

end

theorem IsDeclaration.noErrors
    (isDeclaration : IsDeclaration tokens annotation) :
    NoErrors tokens := by
  cases isDeclaration with
  | empty => simp
  | dot isDot => simp [isDot]
  | declared isColon isType isDot => simp [isColon, isType.noErrors, isDot]

mutual

/-- What the grammar derives has no error token. -/
theorem IsTerm.noErrors : IsTerm tokens named -> NoErrors tokens
  | .name isName => by simp [isName]
  | .abs isLeft isLambda isBinder isDeclaration isBody isRight => by
      simp [isLeft, isLambda, isBinder, isDeclaration.noErrors,
        isBody.noErrors, isRight]
  | .app isLeft isFunction areArguments _ isRight => by
      simp [isLeft, isFunction.noErrors, areArguments.noErrors, isRight]

theorem AreTerms.noErrors : AreTerms tokens terms -> NoErrors tokens
  | .nil => noErrors_nil
  | .cons isTerm areTerms => by
      simp [isTerm.noErrors, areTerms.noErrors]

end

end Grammar
end LambdaCalculus
