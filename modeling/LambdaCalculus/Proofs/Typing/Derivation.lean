import LambdaCalculus.Proofs.Types.Denotation
import LambdaCalculus.Proofs.Typing.Relation

/-!
# The rules of the simply typed lambda calculus

Derivations are about types themselves, not about their numbers.  Checking
compares numbers, which says the same as comparing types because a pool that
numbers each former once numbers each type once.  The main statement is that
checking decides derivability and finds the only derivable type.
-/

namespace LambdaCalculus

/-- Every abstraction declares the type of its argument. -/
def Term.fullyAnnotated : Term -> Bool
  | .var _ _ => true
  | .abs _ declared body => declared.isSome && body.fullyAnnotated
  | .app _ function argument =>
      function.fullyAnnotated && argument.fullyAnnotated

/-- The term has the type in the context, innermost type first.  The pool only
says which types the numbers in the term denote. -/
inductive HasTree (types : TypePool) : List TypeTree -> Term -> TypeTree -> Prop
  | var
      (span : Span)
      (found : context[index]? = some tree) :
      HasTree types context (.var span index) tree
  | abs
      (span : Span)
      (bodyTyped : HasTree types (types.tree declared :: context) body result) :
      HasTree types context (.abs span (some declared) body)
        (.arrow (types.tree declared) result)
  | app
      (span : Span)
      (functionTyped : HasTree types context function (.arrow parameter result))
      (argumentTyped : HasTree types context argument parameter) :
      HasTree types context (.app span function argument) result

namespace HasTree

theorem fullyAnnotated
    (typed : HasTree types context term tree) :
    term.fullyAnnotated = true := by
  induction typed with
  | var span found => rfl
  | abs span bodyTyped inductionHypothesis =>
      rw [Term.fullyAnnotated, inductionHypothesis]
      rfl
  | app span functionTyped argumentTyped functionHypothesis
      argumentHypothesis =>
      rw [Term.fullyAnnotated, functionHypothesis, argumentHypothesis]
      rfl

/-- A term has one type at most. -/
theorem unique
    (left : HasTree types context term leftTree)
    (right : HasTree types context term rightTree) :
    leftTree = rightTree := by
  induction left generalizing rightTree with
  | var span found =>
      cases right with
      | var _ otherFound =>
          rw [found] at otherFound
          exact Option.some.inj otherFound
  | abs span bodyTyped inductionHypothesis =>
      cases right with
      | abs _ otherTyped => rw [inductionHypothesis otherTyped]
  | app span functionTyped argumentTyped functionHypothesis
      argumentHypothesis =>
      cases right with
      | app _ otherTyped _ =>
          exact (TypeTree.arrow.inj (functionHypothesis otherTyped)).2

end HasTree

/-! ## Numbers and the types that they denote -/

/-- The numbers of a context denote the types of another. -/
def DenotesContext
    (types : TypePool)
    (context : List TypeId)
    (trees : List TypeTree) : Prop :=
  List.Forall₂ types.Denotes context trees

theorem DenotesContext.grow
    (denotes : DenotesContext types context trees)
    (grows : types.GrowsTo later) :
    DenotesContext later context trees :=
  List.Forall₂.imp (fun _ _ one => one.grow grows) denotes

theorem exists_getElem?_of_forall₂
    {relation : α -> β -> Prop}
    {index : Nat}
    (related : List.Forall₂ relation lefts rights)
    (found : lefts[index]? = some left) :
    ∃ right, rights[index]? = some right ∧ relation left right := by
  induction related generalizing index with
  | nil => cases found
  | cons head tail inductionHypothesis =>
      cases index with
      | zero =>
          cases found
          exact ⟨_, rfl, head⟩
      | succ index => exact inductionHypothesis found

/-- A derivation about numbers gives one about the types that they denote, if
the declared types have kept the meaning that they had in an earlier pool. -/
theorem HasType.hasTree
    {origin : TypePool}
    (grows : origin.GrowsTo types)
    (typed : HasType types context term type)
    (declares : term.declaresOnly origin.denotesType = true)
    (denotes : DenotesContext types context trees) :
    ∃ tree, HasTree origin trees term tree ∧ types.Denotes type tree := by
  induction typed generalizing trees with
  | var span found =>
      obtain ⟨tree, treeFound, typeDenotes⟩ :=
        exists_getElem?_of_forall₂ denotes found
      exact ⟨tree, HasTree.var span treeFound, typeDenotes⟩
  | abs span bodyTyped interned inductionHypothesis =>
      simp only [Term.declaresOnly, Option.all_some,
        Bool.and_eq_true] at declares
      have declaredDenotes := (TypePool.Denotes.of_denotesType declares.1).grow grows
      obtain ⟨result, bodyDerived, resultDenotes⟩ :=
        inductionHypothesis declares.2 (denotes.cons declaredDenotes)
      refine ⟨_, HasTree.abs span bodyDerived, ?_⟩
      exact TypePool.Denotes.function interned.former?_eq declaredDenotes
        resultDenotes
  | app span functionTyped argumentTyped isFunction functionHypothesis
      argumentHypothesis =>
      simp only [Term.declaresOnly, Bool.and_eq_true] at declares
      obtain ⟨functionTree, functionDerived, functionDenotes⟩ :=
        functionHypothesis declares.1 denotes
      obtain ⟨argumentTree, argumentDerived, argumentDenotes⟩ :=
        argumentHypothesis declares.2 denotes
      obtain ⟨parameterTree, resultTree, rfl, parameterDenotes, resultDenotes⟩ :=
        functionDenotes.eq_arrow isFunction
      rw [argumentDenotes.unique parameterDenotes] at argumentDerived
      exact ⟨resultTree, HasTree.app span functionDerived argumentDerived,
        resultDenotes⟩

/-- Checking a term that has a type finds a number that denotes it.  Where an
argument is compared with a parameter, both denote the type that the rule asks for,
and types of the same tree have the same number, so the comparison succeeds. -/
theorem HasTree.exists_checkIn_eq
    {origin : TypePool}
    (typed : HasTree origin trees term tree)
    (declares : term.declaresOnly origin.denotesType = true)
    (grows : origin.GrowsTo types)
    (nodup : types.formers.Nodup)
    (denotes : DenotesContext types context trees) :
    ∃ type later, term.checkIn context types = ⟨.ok type, later⟩ ∧
      types.GrowsTo later ∧ later.formers.Nodup ∧ later.Denotes type tree := by
  induction typed generalizing types context with
  | var span found =>
      obtain ⟨type, typeFound, typeDenotes⟩ :=
        exists_getElem?_of_forall₂ denotes.flip found
      refine ⟨type, types, ?_, TypePool.GrowsTo.refl types, nodup, typeDenotes⟩
      rw [Term.checkIn, typeFound]
  | @abs declared _ _ _ span bodyTyped inductionHypothesis =>
      simp only [Term.declaresOnly, Option.all_some,
        Bool.and_eq_true] at declares
      have declaredDenotes := (TypePool.Denotes.of_denotesType declares.1).grow grows
      obtain ⟨bodyType, between, bodyChecked, growsBetween, betweenNodup,
        bodyDenotes⟩ := inductionHypothesis declares.2 grows nodup
          (denotes.cons declaredDenotes)
      refine ⟨_, _, by rw [Term.checkIn, bodyChecked], ?_, ?_, ?_⟩
      · exact growsBetween.trans (TypePool.grows_intern between _)
      · exact TypePool.nodup_intern betweenNodup _
      · exact TypePool.denotes_function (declaredDenotes.grow growsBetween)
          bodyDenotes
  | app span functionTyped argumentTyped functionHypothesis
      argumentHypothesis =>
      simp only [Term.declaresOnly, Bool.and_eq_true] at declares
      obtain ⟨functionType, between, functionChecked, growsBetween,
        betweenNodup, functionDenotes⟩ :=
        functionHypothesis declares.1 grows nodup denotes
      obtain ⟨argumentType, later, argumentChecked, growsLater, laterNodup,
        argumentDenotes⟩ :=
        argumentHypothesis declares.2 (grows.trans growsBetween) betweenNodup
          (denotes.grow growsBetween)
      obtain ⟨parameter, result, isFunction, parameterDenotes, resultDenotes⟩ :=
        (functionDenotes.grow growsLater).function?_eq
      have fits : parameter = argumentType :=
        parameterDenotes.injective laterNodup argumentDenotes
      refine ⟨result, later, ?_, growsBetween.trans growsLater, laterNodup,
        resultDenotes⟩
      rw [Term.checkIn, functionChecked]
      simp only [argumentChecked, isFunction, fits, if_true]

/-- A term that passes the check has a type, which the number found denotes. -/
theorem Term.hasTree_of_check
    {types : TypePool}
    (declares : term.declaresOnly types.denotesType = true)
    (checked : (term.check types).result = .ok type) :
    ∃ tree, HasTree types [] term tree ∧
      (term.check types).types.Denotes type tree := by
  have whole : term.checkIn [] types = ⟨.ok type, (term.check types).types⟩ :=
    congrArg (Checked.mk · (term.check types).types) checked
  obtain ⟨grows, typed⟩ := hasType_of_checkIn whole
  exact typed.hasTree grows declares List.Forall₂.nil

/-- A term that has a type passes the check. -/
theorem Term.check_of_hasTree
    {types : TypePool}
    (nodup : types.formers.Nodup)
    (declares : term.declaresOnly types.denotesType = true)
    (typed : HasTree types [] term tree) :
    ∃ type later, term.check types = ⟨.ok type, later⟩ ∧
      later.Denotes type tree := by
  obtain ⟨type, later, checked, _, _, typeDenotes⟩ :=
    typed.exists_checkIn_eq declares (TypePool.GrowsTo.refl types) nodup
      List.Forall₂.nil
  exact ⟨type, later, checked, typeDenotes⟩

/-- Checking decides whether a term whose declared types are valid can be typed
by the rules.  It succeeds exactly if every abstraction declares its type and
some type can be derived; that type is then the only one, the number found
denotes it, and no fault is reported.  Otherwise the error type and one fault
are reported. -/
theorem Term.check_iff_hasTree
    (types : TypePool)
    (built : types.Built permitted)
    (term : Term)
    (declares : term.declaresOnly types.isValid = true) :
    ((term.check types).result.isOk = true ↔
      term.fullyAnnotated = true ∧ ∃ tree, HasTree types [] term tree) ∧
    (∀ tree, HasTree types [] term tree ->
      (∀ other, HasTree types [] term other -> other = tree) ∧
      (term.check types).types.tree (term.check types).type = tree ∧
      (term.check types).errors = []) ∧
    ((term.check types).result.isOk = false ->
      (term.check types).type = TypePool.errorId ∧
      (term.check types).errors.length = 1) := by
  have wellFormed := built.wellFormed
  have meaningful : term.declaresOnly types.denotesType = true :=
    declaresOnly_mono (fun _ => wellFormed.denotesType) declares
  refine ⟨⟨?sound, ?complete⟩, ?found, ?refused⟩
  case sound =>
    intro accepted
    cases result : (term.check types).result with
    | error error =>
        rw [result] at accepted
        cases accepted
    | ok type =>
        obtain ⟨tree, derived, _⟩ := hasTree_of_check meaningful result
        exact ⟨derived.fullyAnnotated, tree, derived⟩
  case complete =>
    rintro ⟨_, tree, derived⟩
    obtain ⟨type, later, checked, _⟩ :=
      check_of_hasTree wellFormed.nodup meaningful derived
    rw [checked]
    rfl
  case found =>
    intro tree derived
    obtain ⟨type, later, checked, typeDenotes⟩ :=
      check_of_hasTree wellFormed.nodup meaningful derived
    refine ⟨fun other otherDerived => otherDerived.unique derived, ?_, ?_⟩
    · rw [checked]
      exact typeDenotes.tree_eq
    · rw [checked]
      rfl
  case refused =>
    intro refused
    unfold Checked.type Checked.errors
    cases result : (term.check types).result with
    | error error => exact ⟨rfl, rfl⟩
    | ok type =>
        rw [result] at refused
        cases refused

/-- `(λf:A→A. f) (λx:A. x)` has the type `A→A`, and checking finds it. -/
theorem Term.check_iff_hasTree_identity :
    let types := ((TypePool.empty.base "A").2.function 1 1).2
    let term := Term.app .nowhere (.abs .nowhere (some 2) (.var .nowhere 0))
      (.abs .nowhere (some 1) (.var .nowhere 0))
    (term.check types).result.isOk = true ∧
      (term.check types).types.tree (term.check types).type =
        .arrow (.base "A") (.base "A") ∧
      (term.check types).errors = [] := by
  intro types term
  have built : types.Built (fun _ => True) :=
    .function (.base .empty trivial) (by decide) (by decide)
  have derived : HasTree types [] term (.arrow (.base "A") (.base "A")) :=
    .app .nowhere (.abs .nowhere (.var .nowhere rfl))
      (.abs .nowhere (.var .nowhere rfl))
  obtain ⟨accepted, found, _⟩ :=
    Term.check_iff_hasTree types built term (by decide)
  exact ⟨accepted.mpr ⟨rfl, _, derived⟩, (found _ derived).2⟩

end LambdaCalculus
