import LambdaCalculus.Proofs.Types.Interning
import Mathlib.Data.Fintype.Card

/-!
# What the number of a type denotes

A number denotes a tree when its parts, and the parts of these, come to an end
in base types and the error type.  A number denotes one tree at most, it keeps
denoting it while the pool grows, and in a pool that repeats no former no other
number denotes the same tree.  A denoted tree is found by unfolding as often as
there are numbers, in any pool: a path that met a number twice would not end.
-/

namespace LambdaCalculus
namespace TypeTree

/-- The number of levels of a type. -/
def height : TypeTree -> Nat
  | .invalid => 1
  | .error => 1
  | .base _ => 1
  | .arrow parameter result => max parameter.height result.height + 1

/-- No part of the type is missing. -/
def isComplete : TypeTree -> Bool
  | .invalid => false
  | .error => true
  | .base _ => true
  | .arrow parameter result => parameter.isComplete && result.isComplete

end TypeTree

namespace TypePool

/-- The number denotes a type: its tree ends in types without parts, and no
part of it is missing. -/
def denotesType
    (types : TypePool)
    (type : TypeId) : Bool :=
  (types.tree type).isComplete

/-- The number denotes the tree. -/
inductive Denotes (types : TypePool) : TypeId -> TypeTree -> Prop
  | error : Denotes types errorId .error
  | base
      {name : Text}
      (formed : types.former? type = some (.base name)) :
      Denotes types type (.base name)
  | function
      {parameter result : TypeId}
      (formed : types.former? type = some (.function parameter result))
      (parameterDenotes : Denotes types parameter parameterTree)
      (resultDenotes : Denotes types result resultTree) :
      Denotes types type (.arrow parameterTree resultTree)

namespace Denotes

theorem grow
    {types later : TypePool}
    {tree : TypeTree}
    (denotes : types.Denotes type tree)
    (grows : types.GrowsTo later) :
    later.Denotes type tree := by
  induction denotes with
  | error => exact error
  | base formed => exact base (grows.former?_eq formed)
  | function formed parameterDenotes resultDenotes parameterHypothesis
      resultHypothesis =>
      exact function (grows.former?_eq formed) parameterHypothesis
        resultHypothesis

/-- A number denotes one tree at most. -/
theorem unique
    {types : TypePool}
    (left : types.Denotes type leftTree)
    (right : types.Denotes type rightTree) :
    leftTree = rightTree := by
  induction left generalizing rightTree with
  | error =>
      cases right with
      | error => rfl
      | base formed => cases formed
      | function formed _ _ => cases formed
  | base formed =>
      cases right with
      | error => cases formed
      | base otherFormed =>
          rw [formed] at otherFormed
          cases otherFormed
          rfl
      | function otherFormed _ _ =>
          rw [formed] at otherFormed
          cases otherFormed
  | function formed _ _ parameterHypothesis resultHypothesis =>
      cases right with
      | error => cases formed
      | base otherFormed =>
          rw [formed] at otherFormed
          cases otherFormed
      | function otherFormed parameterDenotes resultDenotes =>
          rw [formed] at otherFormed
          cases otherFormed
          rw [parameterHypothesis parameterDenotes,
            resultHypothesis resultDenotes]

/-- Without repetition a tree has one number at most. -/
theorem injective
    {types : TypePool}
    {tree : TypeTree}
    (nodup : types.formers.Nodup)
    (left : types.Denotes leftType tree)
    (right : types.Denotes rightType tree) :
    leftType = rightType := by
  have sameNumber : ∀ {one other former},
      types.former? one = some former -> types.former? other = some former ->
        one = other := by
    intro one other former oneFormed otherFormed
    have oneInterned := interned_of_former? nodup oneFormed
    have otherInterned := interned_of_former? nodup otherFormed
    exact congrArg Prod.fst (oneInterned.symm.trans otherInterned)
  induction left generalizing rightType with
  | error =>
      cases right
      rfl
  | base formed =>
      cases right with
      | base otherFormed => exact sameNumber formed otherFormed
  | function formed _ _ parameterHypothesis resultHypothesis =>
      cases right with
      | function otherFormed parameterDenotes resultDenotes =>
          rw [← parameterHypothesis parameterDenotes,
            ← resultHypothesis resultDenotes] at otherFormed
          exact sameNumber formed otherFormed

/-- A number that denotes a function type is one. -/
theorem function?_eq
    {types : TypePool}
    (denotes : types.Denotes type (.arrow parameterTree resultTree)) :
    ∃ parameter result, types.function? type = some (parameter, result) ∧
      types.Denotes parameter parameterTree ∧
      types.Denotes result resultTree := by
  cases denotes with
  | function formed parameterDenotes resultDenotes =>
      exact ⟨_, _, by rw [function?, formed], parameterDenotes, resultDenotes⟩

/-- The parts of a function type that denotes a tree denote its parts. -/
theorem eq_arrow
    {types : TypePool}
    {tree : TypeTree}
    {parameter result : TypeId}
    (denotes : types.Denotes type tree)
    (isFunction : types.function? type = some (parameter, result)) :
    ∃ parameterTree resultTree, tree = .arrow parameterTree resultTree ∧
      types.Denotes parameter parameterTree ∧
      types.Denotes result resultTree := by
  unfold function? at isFunction
  cases denotes with
  | error => cases isFunction
  | base formed =>
      rw [formed] at isFunction
      cases isFunction
  | function formed parameterDenotes resultDenotes =>
      rw [formed] at isFunction
      cases isFunction
      exact ⟨_, _, rfl, parameterDenotes, resultDenotes⟩

/-! ## Unfolding -/

theorem lt_count
    {types : TypePool}
    {tree : TypeTree}
    {type : Nat}
    (denotes : types.Denotes type tree) :
    type < types.count := by
  cases denotes with
  | error => exact Nat.succ_pos _
  | base formed => exact lt_count_of_former? formed
  | function formed _ _ => exact lt_count_of_former? formed

/-- Unfolding a number to the height of its tree gives the tree. -/
theorem unfold_eq
    {types : TypePool}
    {tree : TypeTree}
    (denotes : types.Denotes type tree)
    (depth : Nat)
    (enough : tree.height ≤ depth) :
    types.unfold depth type = tree := by
  induction denotes generalizing depth with
  | error =>
      cases depth with
      | zero => cases enough
      | succ depth => rfl
  | base formed =>
      cases depth with
      | zero => cases enough
      | succ depth =>
          rw [TypePool.unfold, if_neg (ne_errorId_of_former? formed), formed]
  | function formed _ _ parameterHypothesis resultHypothesis =>
      cases depth with
      | zero => cases enough
      | succ depth =>
          simp only [TypeTree.height, Nat.add_le_add_iff_right,
            Nat.max_le] at enough
          rw [TypePool.unfold, if_neg (ne_errorId_of_former? formed), formed]
          simp only
          rw [parameterHypothesis depth enough.1,
            resultHypothesis depth enough.2]

/-- A denoted tree has denoted parts of every smaller height. -/
theorem exists_height
    {types : TypePool}
    {tree : TypeTree}
    (denotes : types.Denotes type tree)
    (height : Nat)
    (low : height < tree.height) :
    ∃ part partTree, types.Denotes part partTree ∧
      partTree.height = height + 1 := by
  induction denotes with
  | error => exact ⟨_, _, error, by simp [TypeTree.height] at low ⊢; omega⟩
  | base formed =>
      exact ⟨_, _, base formed, by simp [TypeTree.height] at low ⊢; omega⟩
  | @function type parameterTree resultTree parameter result formed
      parameterDenotes resultDenotes parameterHypothesis resultHypothesis =>
      simp only [TypeTree.height] at low
      by_cases top : height = max parameterTree.height resultTree.height
      · exact ⟨_, _, function formed parameterDenotes resultDenotes,
          by rw [TypeTree.height, top]⟩
      · rcases Nat.lt_or_ge height parameterTree.height with inside | outside
        · exact parameterHypothesis inside
        · exact resultHypothesis (by omega)

/-- A denoted tree is no higher than the pool has numbers.  It has a part of each
height up to its own, and a number has one tree and so one height. -/
theorem height_le_count
    {types : TypePool}
    {tree : TypeTree}
    (denotes : types.Denotes type tree) :
    tree.height ≤ types.count := by
  choose part partTree partDenotes partHeight using
    fun height : Fin tree.height => denotes.exists_height height.1 height.2
  have injective : Function.Injective
      fun height => (⟨part height, (partDenotes height).lt_count⟩ :
        Fin types.count) := by
    intro one other same
    have sameNumber : part one = part other := congrArg Fin.val same
    have sameTree : partTree one = partTree other :=
      (sameNumber ▸ partDenotes one).unique (partDenotes other)
    have sameHeight := partHeight one
    rw [sameTree, partHeight other] at sameHeight
    exact Fin.ext (Nat.succ.inj sameHeight.symm)
  simpa using Fintype.card_le_of_injective _ injective

/-- The tree of a number is the one that it denotes. -/
theorem tree_eq
    {types : TypePool}
    {tree : TypeTree}
    (denotes : types.Denotes type tree) :
    types.tree type = tree :=
  denotes.unfold_eq types.count denotes.height_le_count

/-- A number denotes what it unfolds to, if nothing is cut off. -/
theorem of_unfold
    {types : TypePool}
    {depth : Nat}
    (complete : (types.unfold depth type).isComplete = true) :
    types.Denotes type (types.unfold depth type) := by
  induction depth generalizing type with
  | zero => cases complete
  | succ depth inductionHypothesis =>
      rw [TypePool.unfold] at complete ⊢
      split at complete
      next isError =>
          rw [if_pos isError, isError]
          exact error
      next nonzero =>
          rw [if_neg nonzero]
          split at complete
          next => cases complete
          next formed => exact base formed
          next formed =>
              simp only [TypeTree.isComplete, Bool.and_eq_true] at complete
              exact function formed (inductionHypothesis complete.1)
                (inductionHypothesis complete.2)

theorem of_denotesType
    {types : TypePool}
    (meaningful : types.denotesType type = true) :
    types.Denotes type (types.tree type) :=
  of_unfold meaningful

end Denotes

/-! ## Pools and numbering -/

/-- A pool that numbering types one after another makes from the empty one. -/
inductive Reached : TypePool -> Prop
  | empty : Reached empty
  | intern
      (reached : Reached types)
      (former : TypeFormer) :
      Reached (types.intern former).2

theorem Reached.nodup
    {types : TypePool}
    (reached : types.Reached) :
    types.formers.Nodup := by
  induction reached with
  | empty => exact List.nodup_nil
  | intern reached former inductionHypothesis =>
      exact nodup_intern inductionHypothesis former

/-- In a well-formed pool every number that has been given out denotes a type. -/
theorem WellFormed.denotesType
    {types : TypePool}
    (wellFormed : types.WellFormed permitted)
    (valid : types.isValid type = true) :
    types.denotesType type = true := by
  unfold TypePool.denotesType
  induction type using wellFormed.type_induction with
  | missing type formed =>
      cases type with
      | zero => rfl
      | succ position =>
          have bound : position + 1 < types.formers.length + 1 :=
            of_decide_eq_true valid
          rw [former?_succ, List.getElem?_eq_none_iff] at formed
          omega
  | base type name formed =>
      rw [tree_of_base formed]
      rfl
  | function type parameter result formed parameterHypothesis
      resultHypothesis =>
      obtain ⟨parameterOlder, resultOlder⟩ := wellFormed.parts_lt formed
      have bound : type < types.count := of_decide_eq_true valid
      rw [wellFormed.tree_of_function formed, TypeTree.isComplete,
        parameterHypothesis (decide_eq_true (parameterOlder.trans bound)),
        resultHypothesis (decide_eq_true (resultOlder.trans bound))]
      rfl

theorem denotes_function
    {types : TypePool}
    {parameter result : TypeId}
    (parameterDenotes : types.Denotes parameter parameterTree)
    (resultDenotes : types.Denotes result resultTree) :
    (types.function parameter result).2.Denotes
      (types.function parameter result).1
      (.arrow parameterTree resultTree) := by
  have grows := grows_intern types (.function parameter result)
  have interned := interned_intern types (.function parameter result)
  exact Denotes.function interned.former?_eq (parameterDenotes.grow grows)
    (resultDenotes.grow grows)

end TypePool

namespace TypeTree

theorem grows_number
    (tree : TypeTree)
    (types : TypePool) :
    types.GrowsTo (tree.number types).2 := by
  induction tree generalizing types with
  | invalid => exact TypePool.GrowsTo.refl types
  | error => exact TypePool.GrowsTo.refl types
  | base name => exact TypePool.grows_intern types (.base name)
  | arrow parameter result parameterHypothesis resultHypothesis =>
      exact ((parameterHypothesis types).trans (resultHypothesis _)).trans
        (TypePool.grows_intern _ _)

/-- Numbering a proper type gives a number that denotes it. -/
theorem denotes_number
    (tree : TypeTree)
    (types : TypePool)
    (proper : tree.isProper = true) :
    (tree.number types).2.Denotes (tree.number types).1 tree := by
  induction tree generalizing types with
  | invalid => cases proper
  | error => cases proper
  | base name =>
      exact TypePool.Denotes.base
        (TypePool.interned_intern types (.base name)).former?_eq
  | arrow parameter result parameterHypothesis resultHypothesis =>
      simp only [isProper, Bool.and_eq_true] at proper
      have parameterDenotes := parameterHypothesis types proper.1
      exact TypePool.denotes_function
        (parameterDenotes.grow (result.grows_number _))
        (resultHypothesis _ proper.2)

theorem reached_number
    (tree : TypeTree)
    (reached : types.Reached) :
    (tree.number types).2.Reached := by
  induction tree generalizing types with
  | invalid => exact reached
  | error => exact reached
  | base name => exact reached.intern (.base name)
  | arrow parameter result parameterHypothesis resultHypothesis =>
      exact (resultHypothesis (parameterHypothesis reached)).intern _

end TypeTree
end LambdaCalculus
