import LambdaCalculus.Proofs.Parser.Translation
import Mathlib.Data.Fintype.EquivFin

/-!
# Programs up to the names of bound variables

Two named terms are alpha-equivalent when renaming bound variables, one binder
at a time and to names that do not occur, leads from one to the other.  A
translation has no names in it, so renaming does not change it.  Conversely two
named terms with one translation become equal when their binders, from the
outside in, are renamed to common new names.  The main statement is that two
sources are parsed as terms that are alike exactly when their named terms are
alpha-equivalent.
-/

namespace LambdaCalculus

namespace NamedTerm

/-- Every name that occurs in the term, those of its binders included. -/
def names : NamedTerm -> List Text
  | .var name => [name]
  | .abs binder _ body => binder :: body.names
  | .app function argument => function.names ++ argument.names

/-- Puts a new name in place of the free occurrences of an old one. -/
def rename
    (old new : Text) : NamedTerm -> NamedTerm
  | .var name => .var (if name = old then new else name)
  | .abs binder declared body =>
      .abs binder declared
        (if binder = old then body else body.rename old new)
  | .app function argument =>
      .app (function.rename old new) (argument.rename old new)

/-- The least congruence that lets a binder and the variables that it binds be
renamed to a name that does not occur in its body.  Declared types stay as they
are. -/
inductive AlphaEquivalent : NamedTerm -> NamedTerm -> Prop
  | rename
      (binder : Text)
      (declared : Option TypeTree)
      {body : NamedTerm}
      (fresh : new ∉ body.names) :
      AlphaEquivalent (.abs binder declared body)
        (.abs new declared (body.rename binder new))
  | abs
      (binder : Text)
      (declared : Option TypeTree)
      (bodies : AlphaEquivalent leftBody rightBody) :
      AlphaEquivalent (.abs binder declared leftBody)
        (.abs binder declared rightBody)
  | app
      (functions : AlphaEquivalent leftFunction rightFunction)
      (arguments : AlphaEquivalent leftArgument rightArgument) :
      AlphaEquivalent (.app leftFunction leftArgument)
        (.app rightFunction rightArgument)
  | refl (named : NamedTerm) :
      AlphaEquivalent named named
  | symm
      (equivalent : AlphaEquivalent left right) :
      AlphaEquivalent right left
  | trans
      (first : AlphaEquivalent left middle)
      (second : AlphaEquivalent middle right) :
      AlphaEquivalent left right

/-- Some name does not occur in two given terms. -/
theorem exists_fresh
    (left right : NamedTerm) :
    ∃ new, new ∉ left.names ∧ new ∉ right.names := by
  obtain ⟨new, absent⟩ :=
    Infinite.exists_notMem_finset (left.names ++ right.names).toFinset
  rw [List.mem_toFinset, List.mem_append, not_or] at absent
  exact ⟨new, absent⟩

end NamedTerm

/-! ## Translations by the form of the named term -/

theorem Scope.index?_extend
    (scope : Scope)
    (binder name : Text) :
    (scope.extend binder).index? name =
      if binder = name then some 0 else (scope.index? name).map (· + 1) := by
  simp [Scope.index?, Scope.extend, List.idxOf?_cons]

namespace Translates

theorem var_iff
    {scope : Scope} :
    Translates types scope (.var name) term ↔
      ∃ span index, scope.index? name = some index ∧
        term = .var span index := by
  constructor
  · rintro ⟨⟩
    next index span innermost =>
      exact ⟨span, index,
        (Scope.index?_eq_some_iff scope name index).mpr innermost, rfl⟩
  · rintro ⟨span, index, found, rfl⟩
    exact var span ((Scope.index?_eq_some_iff scope name index).mp found)

theorem abs_iff
    {scope : Scope} :
    Translates types scope (.abs binder declared namedBody) term ↔
      ∃ span number body, Option.Rel types.Denotes number declared ∧
        Translates types (scope.extend binder) namedBody body ∧
        term = .abs span number body := by
  constructor
  · rintro ⟨⟩
    next number body span declares translated =>
      exact ⟨span, number, body, declares, translated, rfl⟩
  · rintro ⟨span, number, body, declares, translated, rfl⟩
    exact abs span declares translated

theorem app_iff
    {scope : Scope} :
    Translates types scope (.app namedFunction namedArgument) term ↔
      ∃ span function argument,
        Translates types scope namedFunction function ∧
        Translates types scope namedArgument argument ∧
        term = .app span function argument := by
  constructor
  · rintro ⟨⟩
    next function argument span functionTranslated argumentTranslated =>
      exact ⟨span, function, argument, functionTranslated,
        argumentTranslated, rfl⟩
  · rintro ⟨span, function, argument, functionTranslated,
      argumentTranslated, rfl⟩
    exact app span functionTranslated argumentTranslated

/-! ## Renaming keeps the translation -/

/-- Only the places of the names that occur matter to a translation. -/
theorem iff_of_agree
    {named : NamedTerm}
    {scope other : Scope}
    (agree : ∀ name ∈ named.names, scope.index? name = other.index? name) :
    Translates types scope named term ↔ Translates types other named term := by
  induction named generalizing scope other term with
  | var name =>
      rw [var_iff, var_iff, agree name (List.mem_singleton_self name)]
  | abs binder declared body bodyHypothesis =>
      have inside : ∀ name ∈ body.names,
          (scope.extend binder).index? name =
            (other.extend binder).index? name := by
        intro name member
        rw [Scope.index?_extend, Scope.index?_extend,
          agree name (List.mem_cons_of_mem binder member)]
      simp only [abs_iff, bodyHypothesis inside]
  | app function argument functionHypothesis argumentHypothesis =>
      rw [NamedTerm.names, List.forall_mem_append] at agree
      simp only [app_iff, functionHypothesis agree.1,
        argumentHypothesis agree.2]

/-- If the new name stands in one scope where the old one stands in the other,
and the scopes agree on all further names, renaming goes with the change of
scope.  Where the old name is bound again, the body keeps it and finds it in the
same place in both scopes. -/
theorem iff_rename
    {named : NamedTerm}
    {scope other : Scope}
    (fresh : new ∉ named.names)
    (moved : scope.index? old = other.index? new)
    (agree : ∀ name, name ≠ old -> name ≠ new ->
      scope.index? name = other.index? name) :
    Translates types scope named term ↔
      Translates types other (named.rename old new) term := by
  induction named generalizing scope other term with
  | var name =>
      rw [NamedTerm.names, List.mem_singleton] at fresh
      rw [NamedTerm.rename, var_iff, var_iff]
      split
      next isOld => rw [isOld, moved]
      next isOther => rw [agree name isOther (Ne.symm fresh)]
  | abs binder declared body bodyHypothesis =>
      rw [NamedTerm.names, List.mem_cons, not_or] at fresh
      obtain ⟨notBinder, bodyFresh⟩ := fresh
      rw [NamedTerm.rename, abs_iff, abs_iff]
      split
      next isOld =>
          have inside : ∀ name ∈ body.names,
              (scope.extend binder).index? name =
                (other.extend binder).index? name := by
            intro name member
            rw [Scope.index?_extend, Scope.index?_extend]
            split
            next => rfl
            next notName =>
                rw [agree name (fun same => notName (isOld.trans same.symm))
                  (fun same => bodyFresh (same ▸ member))]
          simp only [iff_of_agree inside]
      next isOther =>
          have insideMoved : (scope.extend binder).index? old =
              (other.extend binder).index? new := by
            rw [Scope.index?_extend, Scope.index?_extend, if_neg isOther,
              if_neg (Ne.symm notBinder), moved]
          have inside : ∀ name, name ≠ old -> name ≠ new ->
              (scope.extend binder).index? name =
                (other.extend binder).index? name := by
            intro name notOld notNew
            rw [Scope.index?_extend, Scope.index?_extend,
              agree name notOld notNew]
          simp only [bodyHypothesis bodyFresh insideMoved inside]
  | app function argument functionHypothesis argumentHypothesis =>
      rw [NamedTerm.names, List.mem_append, not_or] at fresh
      simp only [NamedTerm.rename, app_iff,
        functionHypothesis fresh.1 moved agree,
        argumentHypothesis fresh.2 moved agree]

/-- The body of a binder may be read with a new name for the binder. -/
theorem iff_rename_binder
    {body : NamedTerm}
    (scope : Scope)
    (binder : Text)
    (fresh : new ∉ body.names) :
    Translates types (scope.extend binder) body term ↔
      Translates types (scope.extend new) (body.rename binder new) term := by
  apply iff_rename fresh
  · rw [Scope.index?_extend, Scope.index?_extend, if_pos rfl, if_pos rfl]
  · intro name notBinder notNew
    rw [Scope.index?_extend, Scope.index?_extend, if_neg (Ne.symm notBinder),
      if_neg (Ne.symm notNew)]

/-- Alpha-equivalent terms have the same translations. -/
theorem iff_of_alphaEquivalent
    (equivalent : NamedTerm.AlphaEquivalent left right)
    (scope : Scope)
    (term : Term) :
    Translates types scope left term ↔ Translates types scope right term := by
  induction equivalent generalizing scope term with
  | rename binder declared fresh =>
      simp only [abs_iff, iff_rename_binder scope binder fresh]
  | abs binder declared bodies inductionHypothesis =>
      simp only [abs_iff, inductionHypothesis]
  | app functions arguments functionHypothesis argumentHypothesis =>
      simp only [app_iff, functionHypothesis, argumentHypothesis]
  | refl named => exact Iff.rfl
  | symm equivalent inductionHypothesis =>
      exact (inductionHypothesis scope term).symm
  | trans first second firstHypothesis secondHypothesis =>
      exact (firstHypothesis scope term).trans (secondHypothesis scope term)

/-! ## One translation, equivalent terms -/

theorem declared_unique
    {types : TypePool}
    {number : Option TypeId}
    {left right : Option TypeTree}
    (leftDenotes : Option.Rel types.Denotes number left)
    (rightDenotes : Option.Rel types.Denotes number right) :
    left = right := by
  cases leftDenotes with
  | none =>
      cases rightDenotes
      rfl
  | some leftDenotes =>
      cases rightDenotes with
      | some rightDenotes => rw [leftDenotes.unique rightDenotes]

/-- Terms with a common translation are alpha-equivalent.  The induction is on
the translation: the bodies of two binders that belong together are not compared
as they are, but with one new name for both binders. -/
theorem alphaEquivalent
    {left right : NamedTerm}
    (leftTranslated : Translates types scope left term)
    (rightTranslated : Translates types scope right term) :
    left.AlphaEquivalent right := by
  induction term generalizing scope left right with
  | var span index =>
      cases leftTranslated with
      | var _ leftInnermost =>
          cases rightTranslated with
          | var _ rightInnermost =>
              have sameName := leftInnermost.1.symm.trans rightInnermost.1
              rw [Option.some.inj sameName]
              exact .refl _
  | abs span number body bodyHypothesis =>
      cases leftTranslated with
      | @abs _ declared leftBinder leftBody _ _ _ leftDeclares leftTranslated =>
          cases rightTranslated with
          | @abs _ _ rightBinder rightBody _ _ _ rightDeclares
              rightTranslated =>
              rw [declared_unique rightDeclares leftDeclares]
              obtain ⟨new, leftFresh, rightFresh⟩ :=
                NamedTerm.exists_fresh leftBody rightBody
              rw [iff_rename_binder scope leftBinder leftFresh]
                at leftTranslated
              rw [iff_rename_binder scope rightBinder rightFresh]
                at rightTranslated
              have bodies := bodyHypothesis leftTranslated rightTranslated
              exact (NamedTerm.AlphaEquivalent.rename leftBinder declared
                leftFresh).trans ((bodies.abs new declared).trans
                  (NamedTerm.AlphaEquivalent.rename rightBinder declared
                    rightFresh).symm)
  | app span function argument functionHypothesis argumentHypothesis =>
      cases leftTranslated with
      | app _ leftFunction leftArgument =>
          cases rightTranslated with
          | app _ rightFunction rightArgument =>
              exact .app (functionHypothesis leftFunction rightFunction)
                (argumentHypothesis leftArgument rightArgument)

/-- Where the nodes stand does not matter. -/
theorem withoutSpans
    (translated : Translates types scope named term) :
    Translates types scope named term.withoutSpans := by
  induction translated with
  | var span innermost => exact var .nowhere innermost
  | abs span declares translated inductionHypothesis =>
      exact abs .nowhere declares inductionHypothesis
  | app span functionTranslated argumentTranslated functionHypothesis
      argumentHypothesis =>
      exact app .nowhere functionHypothesis argumentHypothesis

/-- In a pool that numbers no former twice, the translations of two terms are
alike exactly when the terms are alpha-equivalent. -/
theorem alike_iff_alphaEquivalent
    (nodup : types.formers.Nodup)
    (leftTranslated : Translates types scope left leftTerm)
    (rightTranslated : Translates types scope right rightTerm) :
    leftTerm.alike rightTerm = true ↔ left.AlphaEquivalent right := by
  rw [Term.alike_iff]
  constructor
  · intro same
    have common := leftTranslated.withoutSpans
    rw [same] at common
    exact common.alphaEquivalent rightTranslated.withoutSpans
  · intro equivalent
    rw [iff_of_alphaEquivalent equivalent] at leftTranslated
    exact leftTranslated.unique nodup rightTranslated

end Translates

/-! ## Parsing -/

/-- What two sources are parsed as is alike exactly when the named terms that
their tokens stand for are alpha-equivalent.  The second source is parsed into
the pool that the first one left behind, to which types may have been added
meanwhile; in the pool at the end a number means one type in both terms. -/
theorem parse_alike_iff_alphaEquivalent
    (leftFile rightFile : Nat)
    (leftSource rightSource : Text)
    (types later : TypePool)
    (leftKnown rightKnown : Diagnostics)
    (leftTerm rightTerm : Term)
    (leftParsed : (parse leftFile leftSource types leftKnown).term =
      some leftTerm)
    (grows : (parse leftFile leftSource types leftKnown).types.GrowsTo later)
    (reached : later.Reached)
    (rightParsed : (parse rightFile rightSource later rightKnown).term =
      some rightTerm) :
    ∃ leftNamed rightNamed,
      (∀ named, Grammar.IsTerm (Token.scan leftFile 0 leftSource) named ↔
        named = leftNamed) ∧
      (∀ named, Grammar.IsTerm (Token.scan rightFile 0 rightSource) named ↔
        named = rightNamed) ∧
      (leftTerm.alike rightTerm = true ↔
        leftNamed.AlphaEquivalent rightNamed) := by
  obtain ⟨leftNamed, leftIsTerm, _, leftTranslated⟩ :=
    parse_translates leftParsed
  obtain ⟨rightNamed, rightIsTerm, growsMore, rightTranslated⟩ :=
    parse_translates rightParsed
  have nodup := (parse_reached reached rightParsed).nodup
  have leftLater := leftTranslated.grow (grows.trans growsMore)
  refine ⟨leftNamed, rightNamed, ?_, ?_,
    leftLater.alike_iff_alphaEquivalent nodup rightTranslated⟩
  · intro named
    exact ⟨fun isTerm => isTerm.eq leftIsTerm, fun same => same ▸ leftIsTerm⟩
  · intro named
    exact ⟨fun isTerm => isTerm.eq rightIsTerm, fun same => same ▸ rightIsTerm⟩

/-- The sources `(λx:A→B. (λx. (x x)))` and `(\y:(A->(B)).(λz (z z)))` are parsed
as terms that are alike, so the named terms are alpha-equivalent. -/
theorem parse_alike_iff_alphaEquivalent_shadowed :
    let leftSource : Text := "(λx:A→B. (λx. (x x)))"
    let rightSource : Text := "(\\y:(A->(B)).(λz (z z)))"
    let left := parse 0 leftSource .empty []
    let right := parse 1 rightSource left.types []
    ∃ leftTerm rightTerm leftNamed rightNamed,
      left.term = some leftTerm ∧ right.term = some rightTerm ∧
      leftTerm.alike rightTerm = true ∧
      Grammar.IsTerm (Token.scan 0 0 leftSource) leftNamed ∧
      Grammar.IsTerm (Token.scan 1 0 rightSource) rightNamed ∧
      leftNamed.AlphaEquivalent rightNamed := by
  intro leftSource rightSource left right
  have bothParsed : (left.term.bind fun leftTerm =>
      right.term.map leftTerm.alike) = some true := by
    decide +kernel
  obtain ⟨leftTerm, leftParsed, rightMapped⟩ :=
    Option.bind_eq_some_iff.mp bothParsed
  obtain ⟨rightTerm, rightParsed, alike⟩ :=
    Option.map_eq_some_iff.mp rightMapped
  obtain ⟨leftNamed, rightNamed, leftOnly, rightOnly, equivalence⟩ :=
    parse_alike_iff_alphaEquivalent 0 1 leftSource rightSource .empty
      left.types [] [] leftTerm rightTerm leftParsed (.refl left.types)
      (parse_reached .empty leftParsed) rightParsed
  exact ⟨leftTerm, rightTerm, leftNamed, rightNamed, leftParsed, rightParsed,
    alike, (leftOnly leftNamed).mpr rfl, (rightOnly rightNamed).mpr rfl,
    equivalence.mp alike⟩

end LambdaCalculus
