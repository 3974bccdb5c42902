import LambdaCalculus.Proofs.Reduction.WordContraction
import LambdaCalculus.Proofs.Term.Nodes

/-!
# Contraction, node by node

Every node of a contraction comes from one node of the body or of the argument
and keeps its labels.  Bound indices of the body stay, those that point past the
contracted binder are lowered by one, and the argument stands where the variable
of that binder stood, its free indices raised over the binders around it.  The
contraction in words, which passes over the terms three times, never fails and
gives the term with these nodes.
-/

namespace LambdaCalculus
namespace Term

/-- What stands at the end of a path when `argument` is put in place of the
variable that is `depth` binders away from the root of `body`. -/
inductive Arises
    (body argument : Term)
    (depth : Nat) : List Branch -> Root -> Prop
  /-- A variable of a binder inside stays as it is. -/
  | bound
      {span : Span}
      (found : body.rootAt? path = some (.var span index))
      (below : index < depth + Branch.binders path) :
      Arises body argument depth path (.var span index)
  /-- A variable of a binder farther out has one binder less to pass. -/
  | free
      {span : Span}
      (found : body.rootAt? path = some (.var span index))
      (above : depth + Branch.binders path < index) :
      Arises body argument depth path (.var span (index - 1))
  | abs
      {span : Span}
      (found : body.rootAt? path = some (.abs span declared)) :
      Arises body argument depth path (.abs span declared)
  | app
      {span : Span}
      (found : body.rootAt? path = some (.app span)) :
      Arises body argument depth path (.app span)
  /-- The argument stands in place of the variable, its free indices raised over
  the binders between it and the root. -/
  | placed
      {span : Span}
      {root : Root}
      (path inner : List Branch)
      (found : body.rootAt? path =
        some (.var span (depth + Branch.binders path)))
      (origin : argument.rootAt? inner = some root) :
      Arises body argument depth (path ++ inner)
        (root.mapIndex fun index =>
          if index < Branch.binders inner then index
          else index + (depth + Branch.binders path))

variable {body child argument : Term} {depth : Nat} {root : Root}

/-! ## Raised terms -/

theorem child?_raise
    (term : Term)
    (amount cutoff : Nat)
    (branch : Branch) :
    (term.raise amount cutoff).child? branch =
      (term.child? branch).map fun child =>
        child.raise amount (cutoff + Branch.binders [branch]) := by
  cases term <;> cases branch <;> rfl

/-- Raising changes the free indices and nothing else. -/
theorem rootAt?_raise
    (term : Term)
    (amount cutoff : Nat)
    (path : List Branch) :
    (term.raise amount cutoff).rootAt? path =
      (term.rootAt? path).map (Root.mapIndex fun index =>
        if index < cutoff + Branch.binders path then index
        else index + amount) := by
  induction path generalizing term cutoff with
  | nil => cases term <;> rfl
  | cons branch path inductionHypothesis =>
      have raised := child?_raise term amount cutoff branch
      cases found : term.child? branch with
      | none =>
          rw [found] at raised
          rw [rootAt?_of_noChild raised, rootAt?_of_noChild found]
          rfl
      | some child =>
          rw [found] at raised
          rw [rootAt?_of_child raised, rootAt?_of_child found,
            inductionHypothesis, Branch.binders_cons branch path,
            Nat.add_assoc]

/-! ## Instantiated bodies -/

theorem child?_instantiateAt
    (depth : Nat)
    (argument : Term)
    (found : body.child? branch = some child) :
    (body.instantiateAt depth argument).child? branch =
      some (child.instantiateAt (depth + Branch.binders [branch])
        argument) := by
  cases body <;> cases branch <;> cases found <;> rfl

/-- Below a path the contracted binder is farther away. -/
theorem nodeAt?_instantiateAt
    {node : Term}
    (depth : Nat)
    (argument : Term)
    (found : body.nodeAt? path = some node) :
    (body.instantiateAt depth argument).nodeAt? path =
      some (node.instantiateAt (depth + Branch.binders path) argument) := by
  induction path generalizing body depth with
  | nil =>
      cases found
      rfl
  | cons branch path inductionHypothesis =>
      obtain ⟨child, isChild, below⟩ := Option.bind_eq_some_iff.mp found
      rw [nodeAt?, child?_instantiateAt depth argument isChild,
        Option.bind_some, inductionHypothesis _ below,
        Branch.binders_cons branch path, Nat.add_assoc]

theorem exists_node_of_rootAt?
    {term : Term}
    (found : term.rootAt? path = some root) :
    ∃ node, term.nodeAt? path = some node ∧ node.root = root :=
  Option.map_eq_some_iff.mp found

/-- Everything that is to arise stands in the instantiated body. -/
theorem Arises.rootAt?_instantiateAt
    (arises : Arises body argument depth path root) :
    (body.instantiateAt depth argument).rootAt? path = some root := by
  cases arises with
  | bound found below =>
      obtain ⟨node, isNode, isRoot⟩ := exists_node_of_rootAt? found
      cases node <;> cases isRoot
      rw [rootAt?, nodeAt?_instantiateAt depth argument isNode,
        instantiateAt_var_of_lt _ argument below]
      rfl
  | free found above =>
      obtain ⟨node, isNode, isRoot⟩ := exists_node_of_rootAt? found
      cases node <;> cases isRoot
      rw [rootAt?, nodeAt?_instantiateAt depth argument isNode,
        instantiateAt_var_of_gt _ argument above]
      rfl
  | abs found =>
      obtain ⟨node, isNode, isRoot⟩ := exists_node_of_rootAt? found
      cases node <;> cases isRoot
      rw [rootAt?, nodeAt?_instantiateAt depth argument isNode]
      rfl
  | app found =>
      obtain ⟨node, isNode, isRoot⟩ := exists_node_of_rootAt? found
      cases node <;> cases isRoot
      rw [rootAt?, nodeAt?_instantiateAt depth argument isNode]
      rfl
  | placed path inner found origin =>
      obtain ⟨node, isNode, isRoot⟩ := exists_node_of_rootAt? found
      cases node <;> cases isRoot
      have raised := rootAt?_raise argument (depth + Branch.binders path) 0 inner
      rw [origin, Nat.zero_add] at raised
      rw [rootAt?, nodeAt?_append,
        nodeAt?_instantiateAt depth argument isNode,
        instantiateAt_var_of_eq _ argument rfl]
      exact raised

/-- What arises below a branch arises at the end of the longer path. -/
theorem Arises.below
    (isChild : body.child? branch = some child)
    (arises : Arises child argument (depth + Branch.binders [branch]) path
      root) :
    Arises body argument depth (branch :: path) root := by
  have sameRoot := rootAt?_of_child isChild
  have sameDepth : ∀ path, depth + Branch.binders [branch] +
      Branch.binders path = depth + Branch.binders (branch :: path) := by
    intro path
    rw [Branch.binders_cons branch path, Nat.add_assoc]
  cases arises with
  | bound found below =>
      rw [sameDepth] at below
      exact .bound ((sameRoot _).trans found) below
  | free found above =>
      rw [sameDepth] at above
      exact .free ((sameRoot _).trans found) above
  | abs found => exact .abs ((sameRoot _).trans found)
  | app found => exact .app ((sameRoot _).trans found)
  | placed path inner found origin =>
      rw [sameDepth] at found ⊢
      exact .placed (branch :: path) inner ((sameRoot _).trans found) origin

/-- Nothing else stands in the instantiated body. -/
theorem Arises.of_rootAt?
    (found : (body.instantiateAt depth argument).rootAt? path = some root) :
    Arises body argument depth path root := by
  induction body generalizing depth path with
  | var span index =>
      rcases Nat.lt_trichotomy index depth with below | rfl | above
      · rw [instantiateAt_var_of_lt span argument below] at found
        cases path with
        | nil =>
            cases found
            exact .bound rfl below
        | cons branch path => cases found
      · rw [instantiateAt_var_of_eq span argument rfl, rootAt?_raise,
          Nat.zero_add] at found
        obtain ⟨origin, isOrigin, rfl⟩ := Option.map_eq_some_iff.mp found
        exact .placed [] path rfl isOrigin
      · rw [instantiateAt_var_of_gt span argument above] at found
        cases path with
        | nil =>
            cases found
            exact .free rfl above
        | cons branch path => cases found
  | abs span declared inner innerHypothesis =>
      cases path with
      | nil =>
          cases found
          exact .abs rfl
      | cons branch path =>
          cases branch with
          | body => exact (innerHypothesis found).below rfl
          | function => cases found
          | argument => cases found
  | app span function operand functionHypothesis operandHypothesis =>
      cases path with
      | nil =>
          cases found
          exact .app rfl
      | cons branch path =>
          cases branch with
          | body => cases found
          | function => exact (functionHypothesis found).below rfl
          | argument => exact (operandHypothesis found).below rfl

/-- Where all indices and counts of binders stay below the sign bit, the
contraction in words is defined and instantiates the body in one pass; and a term
is this contraction exactly if its nodes are the ones that arise from those of
the body and of the argument. -/
theorem contract_arises
    (body argument : Term)
    (fits : ContractionFits body argument) :
    body.contract argument = some (body.instantiate argument) ∧
      ∀ contracted,
        body.contract argument = some contracted ↔
          ∀ path root, contracted.rootAt? path = some root ↔
            Arises body argument 0 path root := by
  have nodes : ∀ path root,
      (body.instantiate argument).rootAt? path = some root ↔
        Arises body argument 0 path root :=
    fun path root => ⟨Arises.of_rootAt?, Arises.rootAt?_instantiateAt⟩
  refine ⟨fits.contract_eq, ?_⟩
  intro contracted
  rw [fits.contract_eq, Option.some.injEq]
  constructor
  · rintro rfl
    exact nodes
  · intro sameNodes
    apply eq_of_rootAt?
    intro path
    apply Option.ext
    intro root
    rw [nodes, sameNodes]

/-- The contraction of `λ:5. (1 (2 0))` with `(0 (λ:4. (0 1)))` in place of the
variable `1`: its free index under a binder of its own is raised over the binder
of the body, and the `2` of the body is lowered. -/
theorem contract_arises_open :
    let inner := Term.abs ⟨0, 14, 25⟩ (some 4)
      (.app ⟨0, 19, 24⟩ (.var ⟨0, 20, 21⟩ 0) (.var ⟨0, 22, 23⟩ 1))
    let argument := Term.app ⟨0, 11, 26⟩ (.var ⟨0, 12, 13⟩ 0) inner
    let body := Term.abs ⟨0, 0, 9⟩ (some 5)
      (.app ⟨0, 2, 9⟩ (.var ⟨0, 3, 4⟩ 1)
        (.app ⟨0, 5, 8⟩ (.var ⟨0, 6, 7⟩ 2) (.var ⟨0, 7, 8⟩ 0)))
    ContractionFits body argument ∧
      ∃ contracted, body.contract argument = some contracted ∧
        contracted.rootAt? [] = some (.abs ⟨0, 0, 9⟩ (some 5)) ∧
        contracted.rootAt? [.body, .function, .argument, .body, .argument] =
          some (.var ⟨0, 22, 23⟩ 2) ∧
        contracted.rootAt? [.body, .argument, .function] =
          some (.var ⟨0, 6, 7⟩ 1) := by
  intro inner argument body
  have fits : ContractionFits body argument :=
    ⟨by decide, by decide, by decide⟩
  obtain ⟨defined, isContraction⟩ := contract_arises body argument fits
  have nodes := (isContraction _).mp defined
  have outer : body.rootAt? [.body, .argument, .function] =
      some (.var ⟨0, 6, 7⟩ 2) :=
    rfl
  have carried : argument.rootAt? [.argument, .body, .argument] =
      some (.var ⟨0, 22, 23⟩ 1) :=
    rfl
  refine ⟨fits, _, defined, (nodes _ _).mpr (.abs rfl), (nodes _ _).mpr ?_,
    (nodes _ _).mpr (.free outer (by decide))⟩
  exact .placed [.body, .function] [.argument, .body, .argument] rfl carried

end Term
end LambdaCalculus
