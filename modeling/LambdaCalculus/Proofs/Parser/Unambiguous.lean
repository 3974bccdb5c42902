import LambdaCalculus.Proofs.Parser.Grammar

/-!
# The grammar is unambiguous

Two derivations that start at the same token derive the same tokens and the
same tree, whatever stands behind the tokens.  Only a type could go on, with an
arrow behind it, so there no arrow may follow.  In particular a list of tokens
stands for one term at most.
-/

namespace LambdaCalculus
namespace Grammar

/-! ## Types -/

mutual

theorem IsAtom.unique
    {leftTokens rightTokens leftRest rightRest : List Token}
    {leftTree rightTree : TypeTree} :
    IsAtom leftTokens leftTree -> IsAtom rightTokens rightTree ->
    leftTokens ++ leftRest = rightTokens ++ rightRest ->
    leftTokens = rightTokens ∧ leftTree = rightTree
  | .name isName, right, same => by
      cases right with
      | name _ =>
          obtain ⟨rfl, _⟩ := List.cons.inj same
          exact ⟨rfl, rfl⟩
      | group isLeft _ _ =>
          obtain ⟨rfl, _⟩ := List.cons.inj same
          simp [isName] at isLeft
  | .group isLeft inner isRight, right, same => by
      cases right with
      | name isName =>
          obtain ⟨rfl, _⟩ := List.cons.inj same
          simp [isName] at isLeft
      | group _ otherInner otherRight =>
          simp only [List.cons_append, List.append_assoc, List.nil_append,
            List.cons.injEq] at same
          obtain ⟨rfl, sameInner⟩ := same
          obtain ⟨rfl, rfl⟩ := inner.unique otherInner sameInner
            (by simp [isRight]) (by simp [otherRight])
          obtain ⟨rfl, _⟩ := List.cons.inj (List.append_cancel_left sameInner)
          exact ⟨rfl, rfl⟩

/-- Only one type can be read from the front of some tokens, if it ends where no
arrow follows.  So a single atom is never read as the parameter of a function
type. -/
theorem IsType.unique
    {leftTokens rightTokens leftRest rightRest : List Token}
    {leftTree rightTree : TypeTree} :
    IsType leftTokens leftTree -> IsType rightTokens rightTree ->
    leftTokens ++ leftRest = rightTokens ++ rightRest ->
    leftRest.head?.map Token.kind ≠ some .arrow ->
    rightRest.head?.map Token.kind ≠ some .arrow ->
    leftTokens = rightTokens ∧ leftTree = rightTree
  | .atom isAtom, right, same, leftEnds, rightEnds => by
      cases right with
      | atom otherAtom => exact isAtom.unique otherAtom same
      | arrow isParameter isArrow _ =>
          rw [List.append_assoc] at same
          obtain ⟨rfl, _⟩ := isAtom.unique isParameter same
          rw [List.append_cancel_left same] at leftEnds
          simp [isArrow] at leftEnds
  | .arrow isParameter isArrow isResult, right, same, leftEnds, rightEnds => by
      rw [List.append_assoc] at same
      cases right with
      | atom isAtom =>
          obtain ⟨rfl, _⟩ := isParameter.unique isAtom same
          rw [← List.append_cancel_left same] at rightEnds
          simp [isArrow] at rightEnds
      | arrow otherParameter _ otherResult =>
          rw [List.append_assoc] at same
          obtain ⟨rfl, rfl⟩ := isParameter.unique otherParameter same
          obtain ⟨rfl, sameResult⟩ :=
            List.cons.inj (List.append_cancel_left same)
          obtain ⟨rfl, rfl⟩ :=
            isResult.unique otherResult sameResult leftEnds rightEnds
          exact ⟨rfl, rfl⟩

end

/-- The tokens go on with a term. -/
def StartsTerm (tokens : List Token) : Prop :=
  ∃ first rest, tokens = first :: rest ∧
    (first.kind = .identifier ∨ first.kind = .leftParenthesis)

theorem IsTerm.startsTerm_append
    (isTerm : IsTerm tokens named)
    (rest : List Token) :
    StartsTerm (tokens ++ rest) := by
  obtain ⟨first, others, rfl, startsTerm⟩ := isTerm.first
  exact ⟨first, others ++ rest, rfl, startsTerm⟩

/-- In front of a term a declaration ends in one way only. -/
theorem IsDeclaration.unique
    {leftTokens rightTokens leftRest rightRest : List Token}
    (left : IsDeclaration leftTokens leftDeclared)
    (right : IsDeclaration rightTokens rightDeclared)
    (same : leftTokens ++ leftRest = rightTokens ++ rightRest)
    (leftStarts : StartsTerm leftRest)
    (rightStarts : StartsTerm rightRest) :
    leftTokens = rightTokens ∧ leftDeclared = rightDeclared := by
  obtain ⟨leftFirst, leftOthers, rfl, leftKind⟩ := leftStarts
  obtain ⟨rightFirst, rightOthers, rfl, rightKind⟩ := rightStarts
  cases left with
  | empty =>
      cases right with
      | empty => exact ⟨rfl, rfl⟩
      | dot isDot =>
          obtain ⟨rfl, _⟩ := List.cons.inj same
          simp [isDot] at leftKind
      | declared isColon _ _ =>
          obtain ⟨rfl, _⟩ := List.cons.inj same
          simp [isColon] at leftKind
  | dot isDot =>
      cases right with
      | empty =>
          obtain ⟨rfl, _⟩ := List.cons.inj same
          simp [isDot] at rightKind
      | dot _ =>
          obtain ⟨rfl, _⟩ := List.cons.inj same
          exact ⟨rfl, rfl⟩
      | declared isColon _ _ =>
          obtain ⟨rfl, _⟩ := List.cons.inj same
          simp [isDot] at isColon
  | declared isColon isType isDot =>
      cases right with
      | empty =>
          obtain ⟨rfl, _⟩ := List.cons.inj same
          simp [isColon] at rightKind
      | dot otherDot =>
          obtain ⟨rfl, _⟩ := List.cons.inj same
          simp [isColon] at otherDot
      | declared _ otherType otherDot =>
          simp only [List.cons_append, List.append_assoc, List.nil_append,
            List.cons.injEq] at same
          obtain ⟨rfl, sameType⟩ := same
          obtain ⟨rfl, rfl⟩ := isType.unique otherType sameType
            (by simp [isDot]) (by simp [otherDot])
          obtain ⟨rfl, _⟩ := List.cons.inj (List.append_cancel_left sameType)
          exact ⟨rfl, rfl⟩

/-! ## Terms -/

/-- A right parenthesis does not start a term. -/
theorem not_startsTerm_of_right
    {right : Token}
    (isRight : right.kind = .rightParenthesis)
    (rest : List Token) :
    ¬StartsTerm (right :: rest) := by
  rintro ⟨first, others, same, startsTerm⟩
  obtain ⟨rfl, _⟩ := List.cons.inj same
  exact kind_ne_of_startsTerm startsTerm (by decide) isRight

mutual

theorem IsTerm.unique
    {leftTokens rightTokens leftRest rightRest : List Token}
    {leftTerm rightTerm : NamedTerm} :
    IsTerm leftTokens leftTerm -> IsTerm rightTokens rightTerm ->
    leftTokens ++ leftRest = rightTokens ++ rightRest ->
    leftTokens = rightTokens ∧ leftTerm = rightTerm
  | .name isName, right, same => by
      cases right with
      | name _ =>
          obtain ⟨rfl, _⟩ := List.cons.inj same
          exact ⟨rfl, rfl⟩
      | abs isLeft _ _ _ _ _ =>
          obtain ⟨rfl, _⟩ := List.cons.inj same
          simp [isName] at isLeft
      | app isLeft _ _ _ _ =>
          obtain ⟨rfl, _⟩ := List.cons.inj same
          simp [isName] at isLeft
  | .abs isLeft isLambda _ isDeclaration isBody isRight, right, same => by
      cases right with
      | name isName =>
          obtain ⟨rfl, _⟩ := List.cons.inj same
          simp [isName] at isLeft
      | abs _ _ _ otherDeclaration otherBody otherRight =>
          simp only [List.cons_append, List.append_assoc, List.nil_append,
            List.cons.injEq] at same
          obtain ⟨rfl, rfl, rfl, sameInside⟩ := same
          obtain ⟨rfl, rfl⟩ := isDeclaration.unique otherDeclaration sameInside
            (isBody.startsTerm_append _) (otherBody.startsTerm_append _)
          have sameBody := List.append_cancel_left sameInside
          obtain ⟨rfl, rfl⟩ := isBody.unique otherBody sameBody
          obtain ⟨rfl, _⟩ := List.cons.inj (List.append_cancel_left sameBody)
          exact ⟨rfl, rfl⟩
      | app _ isFunction _ _ _ =>
          simp only [List.cons_append, List.append_assoc,
            List.cons.injEq] at same
          obtain ⟨first, others, rfl, startsTerm⟩ := isFunction.first
          obtain ⟨rfl, _⟩ := List.cons.inj same.2
          exact absurd isLambda (kind_ne_of_startsTerm startsTerm (by decide))
  | .app isLeft isFunction areArguments nonempty isRight, right, same => by
      cases right with
      | name isName =>
          obtain ⟨rfl, _⟩ := List.cons.inj same
          simp [isName] at isLeft
      | abs _ isLambda _ _ _ _ =>
          simp only [List.cons_append, List.append_assoc,
            List.cons.injEq] at same
          obtain ⟨first, others, rfl, startsTerm⟩ := isFunction.first
          obtain ⟨rfl, _⟩ := List.cons.inj same.2
          exact absurd isLambda (kind_ne_of_startsTerm startsTerm (by decide))
      | app _ otherFunction otherArguments _ otherRight =>
          simp only [List.cons_append, List.append_assoc, List.nil_append,
            List.cons.injEq] at same
          obtain ⟨rfl, sameInside⟩ := same
          obtain ⟨rfl, rfl⟩ := isFunction.unique otherFunction sameInside
          have sameArguments := List.append_cancel_left sameInside
          obtain ⟨rfl, rfl⟩ := areArguments.unique otherArguments sameArguments
            (not_startsTerm_of_right isRight _)
            (not_startsTerm_of_right otherRight _)
          obtain ⟨rfl, _⟩ :=
            List.cons.inj (List.append_cancel_left sameArguments)
          exact ⟨rfl, rfl⟩

theorem AreTerms.unique
    {leftTokens rightTokens leftRest rightRest : List Token}
    {leftTerms rightTerms : List NamedTerm} :
    AreTerms leftTokens leftTerms -> AreTerms rightTokens rightTerms ->
    leftTokens ++ leftRest = rightTokens ++ rightRest ->
    ¬StartsTerm leftRest -> ¬StartsTerm rightRest ->
    leftTokens = rightTokens ∧ leftTerms = rightTerms
  | .nil, right, same, leftEnds, rightEnds => by
      cases right with
      | nil => exact ⟨rfl, rfl⟩
      | cons isTerm _ =>
          rw [List.nil_append, List.append_assoc] at same
          rw [same] at leftEnds
          exact absurd (isTerm.startsTerm_append _) leftEnds
  | .cons isTerm areTerms, right, same, leftEnds, rightEnds => by
      rw [List.append_assoc] at same
      cases right with
      | nil =>
          rw [List.nil_append] at same
          rw [← same] at rightEnds
          exact absurd (isTerm.startsTerm_append _) rightEnds
      | cons otherTerm otherTerms =>
          rw [List.append_assoc] at same
          obtain ⟨rfl, rfl⟩ := isTerm.unique otherTerm same
          obtain ⟨rfl, rfl⟩ := areTerms.unique otherTerms
            (List.append_cancel_left same) leftEnds rightEnds
          exact ⟨rfl, rfl⟩

end

/-- A list of tokens stands for one term at most. -/
theorem IsTerm.eq
    (left : IsTerm tokens leftTerm)
    (right : IsTerm tokens rightTerm) :
    leftTerm = rightTerm := by
  have same : tokens ++ [] = tokens ++ [] := rfl
  exact (left.unique right same).2

end Grammar
end LambdaCalculus
