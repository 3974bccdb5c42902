import LambdaCalculus.Proofs.Diagnostic.Templates
import LambdaCalculus.Proofs.Term.Nodes
import LambdaCalculus.Proofs.Typing.Canonical
import LambdaCalculus.Proofs.Typing.Derivation

/-!
# The first fault of a term

Checking looks at the nodes of a term in a fixed order: at an abstraction before
its body, and at an application after its function and its argument.  It stops at
the first node with which something is wrong.  The error says what is wrong with
this node, where the node stands, and how many binders are around it; and the
diagnostic that reports the error says the same.
-/

namespace LambdaCalculus

/-! ## Nodes in the order of checking -/

/-- Checking comes to the end of the one path before that of the other: to an
abstraction before its body, to the function of an application before the
argument, and to both before the application itself. -/
inductive Branch.CheckedBefore : List Branch -> List Branch -> Prop
  | abstraction
      (path : List Branch) :
      CheckedBefore [] (.body :: path)
  | function
      (path : List Branch) :
      CheckedBefore (.function :: path) []
  | argument
      (path : List Branch) :
      CheckedBefore (.argument :: path) []
  | siblings
      (path other : List Branch) :
      CheckedBefore (.function :: path) (.argument :: other)
  | inside
      (branch : Branch)
      (before : CheckedBefore path other) :
      CheckedBefore (branch :: path) (branch :: other)

/-- Only an application has two branches. -/
theorem Term.siblings_of_child?
    {term child otherChild : Term}
    (isChild : term.child? branch = some child)
    (isOther : term.child? other = some otherChild)
    (different : branch ≠ other) :
    branch = .function ∧ other = .argument ∨
      branch = .argument ∧ other = .function := by
  cases term with
  | var => cases isChild
  | abs =>
      cases branch <;> cases isChild
      cases other <;> cases isOther
      exact absurd rfl different
  | app =>
      cases branch <;> cases isChild <;> cases other <;> cases isOther <;>
        simp_all

/-- Checking comes to any two nodes of a term one after the other. -/
theorem Branch.checkedBefore_total
    {term node otherNode : Term}
    (found : term.nodeAt? path = some node)
    (otherFound : term.nodeAt? other = some otherNode) :
    path = other ∨ CheckedBefore path other ∨ CheckedBefore other path := by
  induction path generalizing term other with
  | nil =>
      cases other with
      | nil => exact .inl rfl
      | cons branch other =>
          cases branch with
          | body => exact .inr (.inl (.abstraction other))
          | function => exact .inr (.inr (.function other))
          | argument => exact .inr (.inr (.argument other))
  | cons branch path inductionHypothesis =>
      cases other with
      | nil =>
          cases branch with
          | body => exact .inr (.inr (.abstraction path))
          | function => exact .inr (.inl (.function path))
          | argument => exact .inr (.inl (.argument path))
      | cons otherBranch other =>
          obtain ⟨child, isChild, below⟩ := Option.bind_eq_some_iff.mp found
          obtain ⟨otherChild, isOther, otherBelow⟩ :=
            Option.bind_eq_some_iff.mp otherFound
          by_cases same : branch = otherBranch
          · subst same
            rw [isChild, Option.some.injEq] at isOther
            subst isOther
            rcases inductionHypothesis below otherBelow with rfl | before | after
            · exact .inl rfl
            · exact .inr (.inl (.inside branch before))
            · exact .inr (.inr (.inside branch after))
          · rcases Term.siblings_of_child? isChild isOther same with
              ⟨rfl, rfl⟩ | ⟨rfl, rfl⟩
            · exact .inr (.inl (.siblings path other))
            · exact .inr (.inr (.siblings other path))

/-- The path leads from a term in a context to a node, and the abstractions on the
way declare the types that stand in front of the context there. -/
inductive Term.Reaches :
    List TypeId -> Term -> List Branch -> List TypeId -> Term -> Prop
  | here
      (context : List TypeId)
      (term : Term) :
      Reaches context term [] context term
  | body
      (span : Span)
      (reaches : Reaches (declared :: context) body path enclosing node) :
      Reaches context (.abs span (some declared) body) (.body :: path) enclosing
        node
  | function
      (span : Span)
      (argument : Term)
      (reaches : Reaches context function path enclosing node) :
      Reaches context (.app span function argument) (.function :: path) enclosing
        node
  | argument
      (span : Span)
      (function : Term)
      (reaches : Reaches context argument path enclosing node) :
      Reaches context (.app span function argument) (.argument :: path) enclosing
        node

namespace Term.Reaches

theorem nodeAt?_eq
    (reaches : Reaches context term path enclosing node) :
    term.nodeAt? path = some node := by
  induction reaches with
  | here => rfl
  | body span reaches inductionHypothesis => exact inductionHypothesis
  | function span argument reaches inductionHypothesis =>
      exact inductionHypothesis
  | argument span function reaches inductionHypothesis =>
      exact inductionHypothesis

/-- A path leads to one node in one context. -/
theorem unique
    (left : Reaches context term path enclosing node)
    (right : Reaches context term path otherEnclosing otherNode) :
    enclosing = otherEnclosing ∧ node = otherNode := by
  induction left with
  | here =>
      cases right
      exact ⟨rfl, rfl⟩
  | body span reaches inductionHypothesis =>
      cases right with
      | body _ otherReaches => exact inductionHypothesis otherReaches
  | function span argument reaches inductionHypothesis =>
      cases right with
      | function _ _ otherReaches => exact inductionHypothesis otherReaches
  | argument span function reaches inductionHypothesis =>
      cases right with
      | argument _ _ otherReaches => exact inductionHypothesis otherReaches

/-- The context has one more type for each binder on the way. -/
theorem length_eq
    (reaches : Reaches context term path enclosing node) :
    enclosing.length = context.length + Branch.binders path := by
  induction reaches with
  | here => rfl
  | body span reaches inductionHypothesis =>
      have one : Branch.binders [.body] = 1 := rfl
      rw [Branch.binders_cons, inductionHypothesis, List.length_cons]
      omega
  | function span argument reaches inductionHypothesis =>
      exact inductionHypothesis
  | argument span function reaches inductionHypothesis =>
      exact inductionHypothesis

/-- What is accepted of the declared types of a term is accepted of the types of
the context at a node and of those declared below it. -/
theorem accepted
    {accepts : TypeId -> Bool}
    (reaches : Reaches context term path enclosing node)
    (declares : term.declaresOnly accepts = true)
    (contextAccepted : ∀ type ∈ context, accepts type = true) :
    (∀ type ∈ enclosing, accepts type = true) ∧
      node.declaresOnly accepts = true := by
  induction reaches with
  | here => exact ⟨contextAccepted, declares⟩
  | body span reaches inductionHypothesis =>
      rw [Term.declaresOnly, Bool.and_eq_true] at declares
      exact inductionHypothesis declares.2
        (List.forall_mem_cons.mpr ⟨declares.1, contextAccepted⟩)
  | function span argument reaches inductionHypothesis =>
      rw [Term.declaresOnly, Bool.and_eq_true] at declares
      exact inductionHypothesis declares.1 contextAccepted
  | argument span function reaches inductionHypothesis =>
      rw [Term.declaresOnly, Bool.and_eq_true] at declares
      exact inductionHypothesis declares.2 contextAccepted

end Term.Reaches

/-! ## Faulty nodes -/

/-- Something is wrong with a node in a context.  An application is faulty if its
parts have types that do not fit; if a part has no type, a node of the part is
faulty. -/
inductive HasFault
    (types : TypePool)
    (context : List TypeId) : Term -> TypeFault -> Prop
  | invalidApplication
      (span : Span)
      (functionTyped : HasType types context function functionType)
      (argumentTyped : HasType types context argument argumentType)
      (unfit : ∀ result,
        types.function? functionType ≠ some (argumentType, result)) :
      HasFault types context (.app span function argument)
        (.invalidApplication function functionType argument argumentType)
  | typeNotDeclared
      (span : Span)
      (body : Term) :
      HasFault types context (.abs span none body) .typeNotDeclared
  | unboundIndex
      (span : Span)
      (outside : context.length ≤ index) :
      HasFault types context (.var span index) (.unboundIndex index)

/-- Nothing is wrong with a node in a context, or with the parts that are checked
before it. -/
inductive Passes
    (types : TypePool)
    (context : List TypeId) : Term -> Prop
  | var
      (span : Span)
      (bound : index < context.length) :
      Passes types context (.var span index)
  | abs
      (span : Span)
      (declared : TypeId)
      (body : Term) :
      Passes types context (.abs span (some declared) body)
  | app
      (typed : HasType types context (.app span function argument) type) :
      Passes types context (.app span function argument)

theorem Passes.not_hasFault
    (passes : Passes types context node) :
    ¬ HasFault types context node fault := by
  intro faulty
  cases faulty with
  | invalidApplication span functionTyped argumentTyped unfit =>
      cases passes with
      | app typed =>
          cases typed with
          | app _ otherFunctionTyped otherArgumentTyped isFunction =>
              rw [otherFunctionTyped.type_unique functionTyped,
                otherArgumentTyped.type_unique argumentTyped] at isFunction
              exact unfit _ isFunction
  | typeNotDeclared span body => cases passes
  | unboundIndex span outside =>
      cases passes with
      | var _ bound => omega

/-- The node at the end of the path passes in the context of the types that the
abstractions around it declare. -/
def PassesAt
    (types : TypePool)
    (context : List TypeId)
    (term : Term)
    (path : List Branch)
    (node : Term) : Prop :=
  ∃ enclosing, term.Reaches context path enclosing node ∧
    Passes types enclosing node

namespace PassesAt

theorem here
    (passes : Passes types context node) :
    PassesAt types context node [] node :=
  ⟨context, .here context node, passes⟩

theorem body
    {inside : Term}
    (span : Span)
    (passes : PassesAt types (declared :: context) inside path node) :
    PassesAt types context (.abs span (some declared) inside) (.body :: path)
      node := by
  obtain ⟨enclosing, reaches, nodePasses⟩ := passes
  exact ⟨enclosing, .body span reaches, nodePasses⟩

theorem function
    {applied : Term}
    (span : Span)
    (argument : Term)
    (passes : PassesAt types context applied path node) :
    PassesAt types context (.app span applied argument) (.function :: path)
      node := by
  obtain ⟨enclosing, reaches, nodePasses⟩ := passes
  exact ⟨enclosing, .function span argument reaches, nodePasses⟩

theorem argument
    {operand : Term}
    (span : Span)
    (function : Term)
    (passes : PassesAt types context operand path node) :
    PassesAt types context (.app span function operand) (.argument :: path)
      node := by
  obtain ⟨enclosing, reaches, nodePasses⟩ := passes
  exact ⟨enclosing, .argument span function reaches, nodePasses⟩

end PassesAt

/-- All nodes of a term that has a type pass. -/
theorem HasType.passesAt
    (typed : HasType types context term type)
    (found : term.nodeAt? path = some node) :
    PassesAt types context term path node := by
  induction typed generalizing path with
  | var span isType =>
      cases path with
      | nil =>
          cases found
          exact .here (.var span (List.getElem?_eq_some_iff.mp isType).1)
      | cons branch path => cases found
  | abs span bodyTyped interned inductionHypothesis =>
      cases path with
      | nil =>
          cases found
          exact .here (.abs span _ _)
      | cons branch path =>
          cases branch with
          | body => exact (inductionHypothesis found).body span
          | function => cases found
          | argument => cases found
  | app span functionTyped argumentTyped isFunction functionHypothesis
      argumentHypothesis =>
      cases path with
      | nil =>
          cases found
          exact .here (.app (.app span functionTyped argumentTyped isFunction))
      | cons branch path =>
          cases branch with
          | body => cases found
          | function => exact (functionHypothesis found).function span _
          | argument => exact (argumentHypothesis found).argument span _

/-! ## The first fault -/

/-- The node at the end of the path is faulty, and all nodes that are checked
before it pass.  These stand under abstractions that declare their types, too. -/
structure FirstFault
    (types : TypePool)
    (context : List TypeId)
    (term : Term)
    (path : List Branch)
    (enclosing : List TypeId)
    (node : Term)
    (fault : TypeFault) : Prop where
  /-- The node stands at the end of the path. -/
  reaches : term.Reaches context path enclosing node
  /-- It is faulty. -/
  faulty : HasFault types enclosing node fault
  /-- All nodes before it pass. -/
  earlier : ∀ other otherNode, Branch.CheckedBefore other path ->
    term.nodeAt? other = some otherNode ->
      PassesAt types context term other otherNode

namespace FirstFault

variable {types : TypePool} {context : List TypeId}

theorem not_checkedBefore
    (left : FirstFault types context term path enclosing node fault)
    (right : FirstFault types context term other otherEnclosing otherNode
      otherFault) :
    ¬ Branch.CheckedBefore path other := by
  intro before
  obtain ⟨_, reaches, passes⟩ :=
    right.earlier path node before left.reaches.nodeAt?_eq
  obtain ⟨rfl, _⟩ := left.reaches.unique reaches
  exact passes.not_hasFault left.faulty

/-- There is one first fault at most. -/
theorem path_unique
    (left : FirstFault types context term path enclosing node fault)
    (right : FirstFault types context term other otherEnclosing otherNode
      otherFault) :
    path = other := by
  rcases Branch.checkedBefore_total left.reaches.nodeAt?_eq
    right.reaches.nodeAt?_eq with same | before | after
  · exact same
  · exact absurd before (left.not_checkedBefore right)
  · exact absurd after (right.not_checkedBefore left)

theorem unboundIndex
    (span : Span)
    (outside : context.length ≤ index) :
    FirstFault types context (.var span index) [] context (.var span index)
      (.unboundIndex index) := by
  refine ⟨.here _ _, .unboundIndex span outside, ?_⟩
  intro other otherNode before found
  cases before <;> cases found

theorem typeNotDeclared
    (span : Span)
    (body : Term) :
    FirstFault types context (.abs span none body) [] context
      (.abs span none body) .typeNotDeclared := by
  refine ⟨.here _ _, .typeNotDeclared span body, ?_⟩
  intro other otherNode before found
  cases before <;> cases found

theorem body
    {inside : Term}
    (span : Span)
    (first : FirstFault types (declared :: context) inside path enclosing node
      fault) :
    FirstFault types context (.abs span (some declared) inside) (.body :: path)
      enclosing node fault := by
  refine ⟨.body span first.reaches, first.faulty, ?_⟩
  intro other otherNode before found
  cases before with
  | abstraction =>
      cases found
      exact .here (.abs span declared inside)
  | inside _ before => exact (first.earlier _ _ before found).body span

theorem function
    {applied : Term}
    (span : Span)
    (argument : Term)
    (first : FirstFault types context applied path enclosing node fault) :
    FirstFault types context (.app span applied argument) (.function :: path)
      enclosing node fault := by
  refine ⟨.function span argument first.reaches, first.faulty, ?_⟩
  intro other otherNode before found
  cases before with
  | inside _ before =>
      exact (first.earlier _ _ before found).function span argument

theorem argument
    {function operand : Term}
    (span : Span)
    (functionTyped : HasType types context function functionType)
    (first : FirstFault types context operand path enclosing node fault) :
    FirstFault types context (.app span function operand) (.argument :: path)
      enclosing node fault := by
  refine ⟨.argument span function first.reaches, first.faulty, ?_⟩
  intro other otherNode before found
  cases before with
  | siblings => exact (functionTyped.passesAt found).function span operand
  | inside _ before =>
      exact (first.earlier _ _ before found).argument span function

theorem invalidApplication
    {function argument : Term}
    (span : Span)
    (functionTyped : HasType types context function functionType)
    (argumentTyped : HasType types context argument argumentType)
    (unfit : ∀ result,
      types.function? functionType ≠ some (argumentType, result)) :
    FirstFault types context (.app span function argument) [] context
      (.app span function argument)
      (.invalidApplication function functionType argument argumentType) := by
  refine ⟨.here _ _,
    .invalidApplication span functionTyped argumentTyped unfit, ?_⟩
  intro other otherNode before found
  cases before with
  | function => exact (functionTyped.passesAt found).function span argument
  | argument => exact (argumentTyped.passesAt found).argument span function

end FirstFault

/-- Checking that fails has found the first fault, in the pool that it leaves. -/
theorem exists_firstFault_of_checkIn
    (checked : term.checkIn context types = ⟨.error error, later⟩) :
    types.GrowsTo later ∧
      ∃ path enclosing node,
        FirstFault later context term path enclosing node error.fault ∧
        error.span = node.span ∧ error.binders = enclosing.length := by
  induction term generalizing context types with
  | var span index =>
      rw [Term.checkIn] at checked
      split at checked
      next => cases checked
      next missing =>
          cases checked
          have outside := List.getElem?_eq_none_iff.mp missing
          exact ⟨TypePool.GrowsTo.refl _, _, _, _, .unboundIndex span outside,
            rfl, rfl⟩
  | abs span declared body bodyHypothesis =>
      cases declared with
      | none =>
          cases checked
          exact ⟨TypePool.GrowsTo.refl _, _, _, _, .typeNotDeclared span body,
            rfl, rfl⟩
      | some declared =>
          rw [Term.checkIn] at checked
          split at checked
          next bodyError between bodyChecked =>
              cases checked
              obtain ⟨grows, path, enclosing, node, first, place⟩ :=
                bodyHypothesis bodyChecked
              exact ⟨grows, _, _, _, first.body span, place⟩
          next => cases checked
  | app span function argument functionHypothesis argumentHypothesis =>
      rw [Term.checkIn] at checked
      split at checked
      next functionError between functionChecked =>
          cases checked
          obtain ⟨grows, path, enclosing, node, first, place⟩ :=
            functionHypothesis functionChecked
          exact ⟨grows, _, _, _, first.function span argument, place⟩
      next functionType between functionChecked =>
          obtain ⟨grows, functionTyped⟩ := hasType_of_checkIn functionChecked
          split at checked
          next argumentError after argumentChecked =>
              cases checked
              obtain ⟨growsMore, path, enclosing, node, first, place⟩ :=
                argumentHypothesis argumentChecked
              exact ⟨grows.trans growsMore, _, _, _,
                first.argument span (functionTyped.grow growsMore), place⟩
          next argumentType after argumentChecked =>
              obtain ⟨growsMore, argumentTyped⟩ :=
                hasType_of_checkIn argumentChecked
              have functionStaysTyped := functionTyped.grow growsMore
              simp only at checked
              split at checked
              next parameter result isFunction =>
                  split at checked
                  next => cases checked
                  next different =>
                      cases checked
                      refine ⟨grows.trans growsMore, _, _, _,
                        .invalidApplication span functionStaysTyped
                          argumentTyped ?_, rfl, rfl⟩
                      intro other fits
                      rw [isFunction] at fits
                      cases fits
                      exact different rfl
              next notFunction =>
                  cases checked
                  refine ⟨grows.trans growsMore, _, _, _,
                    .invalidApplication span functionStaysTyped
                      argumentTyped ?_, rfl, rfl⟩
                  intro other fits
                  rw [notFunction] at fits
                  cases fits

/-! ## Faults and the rules -/

theorem denotesContext_map_tree
    {origin : TypePool}
    (grows : origin.GrowsTo types)
    (meaningful : ∀ type ∈ context, origin.denotesType type = true) :
    DenotesContext types context (context.map origin.tree) := by
  rw [DenotesContext, List.forall₂_map_right_iff, List.forall₂_same]
  intro type member
  exact (TypePool.Denotes.of_denotesType (meaningful type member)).grow grows

/-- The types that an invalid application is reported with are the ones that the
rules derive for its parts, and by the rules they do not fit. -/
theorem HasFault.hasTree
    {origin : TypePool}
    (grows : origin.GrowsTo types)
    (nodup : types.formers.Nodup)
    (declares : node.declaresOnly origin.denotesType = true)
    (meaningful : ∀ type ∈ context, origin.denotesType type = true)
    (faulty : HasFault types context node
      (.invalidApplication function functionType argument argumentType)) :
    HasTree origin (context.map origin.tree) function
        (types.tree functionType) ∧
      HasTree origin (context.map origin.tree) argument
        (types.tree argumentType) ∧
      ∀ result, types.tree functionType ≠
        .arrow (types.tree argumentType) result := by
  have denotes := denotesContext_map_tree grows meaningful
  cases faulty with
  | invalidApplication span functionTyped argumentTyped unfit =>
      rw [Term.declaresOnly, Bool.and_eq_true] at declares
      obtain ⟨functionTree, functionDerived, functionDenotes⟩ :=
        functionTyped.hasTree grows declares.1 denotes
      obtain ⟨argumentTree, argumentDerived, argumentDenotes⟩ :=
        argumentTyped.hasTree grows declares.2 denotes
      rw [functionDenotes.tree_eq, argumentDenotes.tree_eq]
      refine ⟨functionDerived, argumentDerived, ?_⟩
      rintro result rfl
      obtain ⟨parameter, resultType, isFunction, parameterDenotes, _⟩ :=
        functionDenotes.function?_eq
      have fits : parameter = argumentType :=
        parameterDenotes.injective nodup argumentDenotes
      rw [fits] at isFunction
      exact unfit resultType isFunction

/-! ## Reports -/

/-- The diagnostic says what the error says, except that a missing declaration is
explained at greater length. -/
theorem TypeError.message_diagnostic
    (types : TypePool)
    (error : TypeError)
    (declared : error.fault ≠ .typeNotDeclared) :
    (error.diagnostic types).message = error.message types := by
  obtain ⟨span, binders, fault⟩ := error
  rw [Diagnostic.message_eq_pieces]
  cases fault with
  | invalidApplication function functionType argument argumentType =>
      have isTemplate :
          Template.pieces
              (Diagnostic.Code.template .typeInvalidApplication) =
            [.words "attempted to apply term (", .slot 0, .words "):",
              .slot 1, .words " to term (", .slot 2, .words "):", .slot 3,
              .words []] := by
        decide +kernel
      simp [TypeError.diagnostic, TypeError.code, TypeError.arguments,
        TypeError.message, isTemplate, Template.Piece.filled]
  | typeNotDeclared => exact absurd rfl declared
  | unboundIndex index =>
      have isTemplate :
          Template.pieces (Diagnostic.Code.template .typeUnboundIndex) =
            [.words "variable index ", .slot 0,
              .words " escapes a typing context of depth ", .slot 1,
              .words []] := by
        decide +kernel
      simp [TypeError.diagnostic, TypeError.code, TypeError.arguments,
        TypeError.message, isTemplate, Template.Piece.filled]

/-- Checking that fails reports one error, which describes the first faulty node:
its fault, its span and the number of abstractions around it.  If the types of the
pool have been numbered one after another and the term declares such types, then
the types of an invalid application are the ones that the rules derive for its
parts.  One diagnostic is added, at the same place and with the same words, except
for a missing declaration. -/
theorem Term.check_finds_first_fault
    (types later : TypePool)
    (term : Term)
    (error : TypeError)
    (failed : term.check types = ⟨.error error, later⟩) :
    (term.check types).errors = [error] ∧
    (∃ path context node,
      FirstFault later [] term path context node error.fault ∧
      (∀ other otherContext otherNode otherFault,
        FirstFault later [] term other otherContext otherNode otherFault ->
          other = path) ∧
      error.span = node.span ∧
      error.binders = Branch.binders path ∧ error.binders = context.length ∧
      (TypePool.empty.EvolvesTo types ->
        term.declaresOnly types.isValid = true ->
        ∀ function functionType argument argumentType,
          error.fault =
            .invalidApplication function functionType argument argumentType ->
          HasTree types (context.map types.tree) function
            (later.tree functionType) ∧
          HasTree types (context.map types.tree) argument
            (later.tree argumentType) ∧
          ∀ result,
            later.tree functionType ≠ .arrow (later.tree argumentType) result)) ∧
    ∃ diagnostic, (term.check types).diagnostics = [diagnostic] ∧
      diagnostic.span = error.span ∧
      (error.fault ≠ .typeNotDeclared ->
        diagnostic.message = error.message later) := by
  obtain ⟨grows, path, context, node, first, span, binders⟩ :=
    exists_firstFault_of_checkIn failed
  refine ⟨?errors, ⟨path, context, node, first, ?unique, span, ?binders, binders,
    ?rules⟩, error.diagnostic later, ?diagnostics, rfl,
    error.message_diagnostic later⟩
  case errors =>
    rw [failed]
    rfl
  case unique =>
    intro other otherContext otherNode otherFault otherFirst
    exact otherFirst.path_unique first
  case binders =>
    rw [binders, first.reaches.length_eq]
    exact Nat.zero_add _
  case rules =>
    intro evolved declares function functionType argument argumentType isFault
    have built := evolved.built .empty
    have checked := term.checkIn_evolvedFrom built (List.forall_mem_nil _) declares
    rw [← Term.check, failed] at checked
    have nodup := (checked.evolves.built built).wellFormed.nodup
    have meaningful : term.declaresOnly types.denotesType = true :=
      declaresOnly_mono (fun _ => built.wellFormed.denotesType) declares
    obtain ⟨contextMeaningful, nodeMeaningful⟩ :=
      first.reaches.accepted meaningful (List.forall_mem_nil _)
    have faulty := first.faulty
    rw [isFault] at faulty
    exact faulty.hasTree grows nodup nodeMeaningful contextMeaningful
  case diagnostics =>
    rw [failed]
    rfl

/-- In `λy:B. ((λx:A. x) y)` the application is the first faulty node: its parts
have the types `A→A` and `B`. -/
theorem Term.check_finds_first_fault_mismatch :
    let types := ((TypePool.empty.base "A").2.base "B").2
    let later := (types.function 1 1).2
    let identity := Term.abs ⟨0, 8, 16⟩ (some 1) (.var ⟨0, 14, 15⟩ 0)
    let term := Term.abs ⟨0, 0, 20⟩ (some 2)
      (.app ⟨0, 7, 19⟩ identity (.var ⟨0, 17, 18⟩ 0))
    let error : TypeError := ⟨⟨0, 7, 19⟩, 1,
      .invalidApplication identity 3 (.var ⟨0, 17, 18⟩ 0) 2⟩
    term.check types = ⟨.error error, later⟩ ∧
      (∃ path context node,
        FirstFault later [] term path context node error.fault ∧
        node.span = ⟨0, 7, 19⟩ ∧ Branch.binders path = 1 ∧
        HasTree types (context.map types.tree) identity
          (.arrow (.base "A") (.base "A"))) ∧
      ∃ diagnostic, (term.check types).diagnostics = [diagnostic] ∧
        diagnostic.message =
          "attempted to apply term ((λb:A.b)):(A)→A to term (a):B" := by
  intro types later identity term error
  have failed : term.check types = ⟨.error error, later⟩ := rfl
  have evolved : TypePool.empty.EvolvesTo types :=
    (TypePool.EvolvesTo.base _ "A").trans (TypePool.EvolvesTo.base _ "B")
  have message : error.message later =
      "attempted to apply term ((λb:A.b)):(A)→A to term (a):B" := by
    decide +kernel
  obtain ⟨_, ⟨path, context, node, first, _, span, binders, _, rules⟩,
    diagnostic, added, _, words⟩ :=
    Term.check_finds_first_fault types later term error failed
  obtain ⟨functionDerived, _⟩ :=
    rules evolved (by decide) identity 3 (.var ⟨0, 17, 18⟩ 0) 2 rfl
  exact ⟨failed, ⟨path, context, node, first, span.symm, binders.symm,
    functionDerived⟩, diagnostic, added, (words nofun).trans message⟩

end LambdaCalculus
