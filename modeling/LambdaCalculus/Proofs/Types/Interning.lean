import LambdaCalculus.Types.Tree
import Mathlib.Data.List.Nodup

/-!
# Interning types

A pool only grows, and a type keeps its number while it does.  A type formed
in a given way is looked up before it is numbered, so numbering it twice
changes nothing.  A pool that is built from the empty one has parts that are
older than the types made of them, which is why the tree of a number is well
defined, and numbering the tree of a number finds that number again.
-/

namespace LambdaCalculus
namespace TypePool

/-! ## Growing pools -/

/-- The later pool has the types of the earlier one under the same numbers. -/
def GrowsTo
    (earlier later : TypePool) : Prop :=
  earlier.formers <+: later.formers

theorem GrowsTo.refl
    (types : TypePool) :
    types.GrowsTo types :=
  List.prefix_refl types.formers

theorem GrowsTo.trans
    {earlier middle later : TypePool}
    (first : earlier.GrowsTo middle)
    (second : middle.GrowsTo later) :
    earlier.GrowsTo later :=
  List.IsPrefix.trans first second

/-- A number keeps its former. -/
theorem GrowsTo.former?_eq
    {earlier later : TypePool}
    (grows : earlier.GrowsTo later)
    (formed : earlier.former? type = some former) :
    later.former? type = some former := by
  obtain ⟨added, appended⟩ := grows
  cases type with
  | zero => simp at formed
  | succ position =>
      simp only [former?_succ] at formed ⊢
      rw [← appended, List.getElem?_append_left]
      · exact formed
      · exact (List.getElem?_eq_some_iff.mp formed).1

theorem GrowsTo.function?_eq
    {earlier later : TypePool}
    {parameter result : TypeId}
    (grows : earlier.GrowsTo later)
    (isFunction : earlier.function? type = some (parameter, result)) :
    later.function? type = some (parameter, result) := by
  unfold function? at isFunction ⊢
  split at isFunction
  next formed =>
      rw [grows.former?_eq formed]
      exact isFunction
  next => simp at isFunction

theorem grows_intern
    (types : TypePool)
    (former : TypeFormer) :
    types.GrowsTo (types.intern former).2 := by
  unfold intern
  split
  next => exact GrowsTo.refl types
  next => exact List.prefix_append types.formers [former]

/-! ## Types that have a number -/

/-- The pool has the type formed in this way under the given number. -/
def Interned
    (types : TypePool)
    (former : TypeFormer)
    (type : TypeId) : Prop :=
  types.intern former = (type, types)

/-- A type is interned exactly if it has a place in the pool; otherwise numbering it
makes the pool longer. -/
theorem interned_iff
    (types : TypePool)
    (former : TypeFormer)
    (type : TypeId) :
    types.Interned former type ↔
      ∃ position, types.formers.idxOf? former = some position ∧
        type = position + 1 := by
  unfold Interned intern
  cases found : types.formers.idxOf? former with
  | some position =>
      constructor
      · intro equal
        exact ⟨position, rfl, (congrArg Prod.fst equal).symm⟩
      · rintro ⟨other, same, rfl⟩
        rw [Option.some.inj same]
  | none =>
      constructor
      · intro equal
        have longer := congrArg (fun pair => pair.2.formers.length) equal
        simp at longer
      · rintro ⟨position, absurdity, _⟩
        cases absurdity

/-- A type that has been numbered has a number. -/
theorem interned_intern
    (types : TypePool)
    (former : TypeFormer) :
    (types.intern former).2.Interned former (types.intern former).1 := by
  rw [interned_iff]
  unfold intern
  cases found : types.formers.idxOf? former with
  | some position => exact ⟨position, found, rfl⟩
  | none =>
      refine ⟨types.formers.length, ?_, rfl⟩
      have absent : types.formers.findIdx? (· == former) = none := found
      simp [List.idxOf?, List.findIdx?_append, absent]

theorem Interned.grow
    {types later : TypePool}
    (interned : types.Interned former type)
    (grows : types.GrowsTo later) :
    later.Interned former type := by
  rw [interned_iff] at interned ⊢
  obtain ⟨position, found, rfl⟩ := interned
  obtain ⟨added, appended⟩ := grows
  refine ⟨position, ?_, rfl⟩
  have foundFirst : types.formers.findIdx? (· == former) = some position := found
  rw [← appended]
  simp [List.idxOf?, List.findIdx?_append, foundFirst]

theorem Interned.former?_eq
    {types : TypePool}
    (interned : types.Interned former type) :
    types.former? type = some former := by
  rw [interned_iff] at interned
  obtain ⟨position, found, rfl⟩ := interned
  obtain ⟨bound, equal, _⟩ := List.idxOf?_eq_some_iff.mp found
  rw [former?_succ, List.getElem?_eq_getElem bound, equal]

theorem Interned.function?_eq
    {types : TypePool}
    {parameter result : TypeId}
    (interned : types.Interned (.function parameter result) type) :
    types.function? type = some (parameter, result) := by
  unfold function?
  rw [interned.former?_eq]

/-- In a pool without repetition the number of a former is the only one. -/
theorem interned_of_former?
    {types : TypePool}
    (nodup : types.formers.Nodup)
    (formed : types.former? type = some former) :
    types.Interned former type := by
  cases type with
  | zero => simp at formed
  | succ position =>
      rw [interned_iff]
      refine ⟨position, ?_, rfl⟩
      obtain ⟨bound, equal⟩ := List.getElem?_eq_some_iff.mp formed
      refine List.idxOf?_eq_some_iff.mpr ⟨bound, equal, ?_⟩
      intro earlier before same
      have positions : earlier = position :=
        (List.Nodup.getElem_inj_iff nodup).mp (same.trans equal.symm)
      omega

/-! ## Pools built from the empty one -/

/-- A pool that is made from the empty one by numbering base types with
permitted names and function types whose parts have been numbered. -/
inductive Built (permitted : Text -> Prop) : TypePool -> Prop
  | empty : Built permitted empty
  | base
      (built : Built permitted types)
      (allowed : permitted name) :
      Built permitted (types.base name).2
  | function
      {parameter result : TypeId}
      (built : Built permitted types)
      (parameterValid : types.isValid parameter = true)
      (resultValid : types.isValid result = true) :
      Built permitted (types.function parameter result).2

/-- The name of the former is permitted, or its parts are below a bound. -/
def AllowedBelow
    (permitted : Text -> Prop)
    (bound : Nat) : TypeFormer -> Prop
  | .base name => permitted name
  | .function parameter result => parameter < bound ∧ result < bound

/-- No two numbers stand for types formed in the same way, and every type is
younger than its parts. -/
structure WellFormed
    (permitted : Text -> Prop)
    (types : TypePool) : Prop where
  /-- No former is repeated. -/
  nodup : types.formers.Nodup
  /-- Names are permitted and parts are older. -/
  allowed : ∀ type former, types.former? type = some former ->
    AllowedBelow permitted type former

/-- Both parts of a function type are older than it. -/
theorem WellFormed.parts_lt
    {types : TypePool}
    {type parameter result : Nat}
    (wellFormed : types.WellFormed permitted)
    (formed : types.former? type = some (.function parameter result)) :
    parameter < type ∧ result < type :=
  wellFormed.allowed type _ formed

theorem lt_count_of_former?
    {types : TypePool}
    {type : Nat}
    (formed : types.former? type = some former) :
    type < types.count := by
  cases type with
  | zero => simp at formed
  | succ position =>
      rw [former?_succ] at formed
      have bound := (List.getElem?_eq_some_iff.mp formed).1
      exact Nat.succ_lt_succ bound

/-- The error type is not formed from anything. -/
theorem ne_errorId_of_former?
    {types : TypePool}
    (formed : types.former? type = some former) :
    type ≠ errorId := by
  rintro rfl
  cases formed

/-- Numbering a type adds at most that type. -/
theorem former?_intern
    {types : TypePool}
    (formed : (types.intern former).2.former? type = some other) :
    types.former? type = some other ∨ type = types.count ∧ other = former := by
  unfold intern at formed
  split at formed
  next => exact Or.inl formed
  next =>
      cases type with
      | zero => simp at formed
      | succ position =>
          simp only [former?_succ, List.getElem?_append] at formed ⊢
          split at formed
          next => exact Or.inl formed
          next outside =>
              obtain ⟨bound, equal⟩ := List.getElem?_eq_some_iff.mp formed
              simp only [List.length_singleton] at bound
              have last : position = types.formers.length := by omega
              subst last
              exact Or.inr ⟨rfl, by simpa using equal.symm⟩

theorem nodup_intern
    {types : TypePool}
    (nodup : types.formers.Nodup)
    (former : TypeFormer) :
    (types.intern former).2.formers.Nodup := by
  unfold intern
  split
  next => exact nodup
  next absent =>
      have fresh := List.idxOf?_eq_none_iff.mp absent
      simpa using List.Nodup.concat fresh nodup

theorem WellFormed.intern
    {types : TypePool}
    (wellFormed : types.WellFormed permitted)
    (allowed : AllowedBelow permitted types.count former) :
    (types.intern former).2.WellFormed permitted := by
  constructor
  · exact nodup_intern wellFormed.nodup former
  · intro type other formed
    rcases former?_intern formed with old | ⟨rfl, rfl⟩
    · exact wellFormed.allowed type other old
    · exact allowed

/-- Every pool that is built is well formed. -/
theorem Built.wellFormed
    {types : TypePool}
    (built : types.Built permitted) :
    types.WellFormed permitted := by
  induction built with
  | empty =>
      constructor
      · exact List.nodup_nil
      · intro type former formed
        cases type <;> simp [TypePool.empty] at formed
  | base _ allowed inductionHypothesis =>
      exact inductionHypothesis.intern allowed
  | function _ parameterValid resultValid inductionHypothesis =>
      apply inductionHypothesis.intern
      exact ⟨by simpa [isValid] using parameterValid,
        by simpa [isValid] using resultValid⟩

/-- Induction on how the types of a well-formed pool are formed. -/
theorem WellFormed.type_induction
    {types : TypePool}
    {motive : TypeId -> Prop}
    (wellFormed : types.WellFormed permitted)
    (missing : ∀ type, types.former? type = none -> motive type)
    (base : ∀ type name,
      types.former? type = some (.base name) -> motive type)
    (function : ∀ type parameter result,
      types.former? type = some (.function parameter result) ->
      motive parameter -> motive result -> motive type)
    (type : TypeId) :
    motive type := by
  induction type using Nat.strongRecOn with
  | ind type inductionHypothesis =>
      cases formed : types.former? type with
      | none => exact missing type formed
      | some former =>
          cases former with
          | base name => exact base type name formed
          | function parameter result =>
              obtain ⟨parameterOlder, resultOlder⟩ := wellFormed.parts_lt formed
              apply function type parameter result formed
              · exact inductionHypothesis parameter parameterOlder
              · exact inductionHypothesis result resultOlder

/-! ## The tree of a number -/

/-- Unfolding a number more often than the number says changes nothing,
because every part has a smaller number. -/
theorem WellFormed.unfold_eq
    {types : TypePool}
    (wellFormed : types.WellFormed permitted)
    (type depth otherDepth : Nat)
    (enough : type < depth)
    (alsoEnough : type < otherDepth) :
    types.unfold depth type = types.unfold otherDepth type := by
  induction depth generalizing type otherDepth with
  | zero => omega
  | succ depth inductionHypothesis =>
      obtain ⟨otherDepth, rfl⟩ : ∃ less, otherDepth = less + 1 :=
        ⟨otherDepth - 1, by omega⟩
      unfold TypePool.unfold
      split
      next => rfl
      next =>
          split
          next => rfl
          next => rfl
          next parameter result formed =>
              obtain ⟨parameterOlder, resultOlder⟩ := wellFormed.parts_lt formed
              rw [inductionHypothesis parameter otherDepth
                  (by omega) (by omega),
                inductionHypothesis result otherDepth (by omega) (by omega)]

theorem tree_of_base
    {types : TypePool}
    (formed : types.former? type = some (.base name)) :
    types.tree type = .base name := by
  have nonzero := ne_errorId_of_former? formed
  simp [tree, count, TypePool.unfold, formed, nonzero]

theorem WellFormed.tree_of_function
    {types : TypePool}
    {parameter result : TypeId}
    (wellFormed : types.WellFormed permitted)
    (formed : types.former? type = some (.function parameter result)) :
    types.tree type = .arrow (types.tree parameter) (types.tree result) := by
  have nonzero := ne_errorId_of_former? formed
  have bound := lt_count_of_former? formed
  obtain ⟨parameterOlder, resultOlder⟩ := wellFormed.parts_lt formed
  unfold tree
  simp only [count] at bound ⊢
  rw [wellFormed.unfold_eq parameter _ types.formers.length
      (by omega) (by omega),
    wellFormed.unfold_eq result _ types.formers.length
      (by omega) (by omega)]
  simp [TypePool.unfold, formed, nonzero]

end TypePool

namespace TypeTree

/-- Neither the error type nor a missing type is part of the type. -/
def isProper : TypeTree -> Bool
  | .invalid => false
  | .error => false
  | .base _ => true
  | .arrow parameter result => parameter.isProper && result.isProper

/-- Numbers a type after its parts, which are numbered from left to right. -/
def number : TypeTree -> TypePool -> TypeId × TypePool
  | .invalid, types => (TypePool.errorId, types)
  | .error, types => (TypePool.errorId, types)
  | .base name, types => types.base name
  | .arrow parameter result, types =>
      let first := parameter.number types
      let second := result.number first.2
      second.2.function first.1 second.1

end TypeTree

namespace TypePool

/-- Numbering the tree of a number finds the number and adds nothing. -/
theorem WellFormed.number_tree
    {types : TypePool}
    (wellFormed : types.WellFormed permitted)
    (proper : (types.tree type).isProper = true) :
    (types.tree type).number types = (type, types) := by
  induction type using wellFormed.type_induction with
  | missing type formed =>
      simp only [tree, count, TypePool.unfold, formed] at proper
      split at proper <;> simp [TypeTree.isProper] at proper
  | base type name formed =>
      rw [tree_of_base formed]
      exact interned_of_former? wellFormed.nodup formed
  | function type parameter result formed parameterHypothesis
      resultHypothesis =>
      rw [wellFormed.tree_of_function formed] at proper ⊢
      simp only [TypeTree.isProper, Bool.and_eq_true] at proper
      simp only [TypeTree.number]
      rw [parameterHypothesis proper.1, resultHypothesis proper.2]
      exact interned_of_former? wellFormed.nodup formed

end TypePool
end LambdaCalculus
