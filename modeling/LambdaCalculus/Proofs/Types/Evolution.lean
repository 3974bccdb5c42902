import LambdaCalculus.Proofs.Types.Names
import Mathlib.Logic.Relation

/-!
# How a pool evolves

Types are numbered one at a time: a base type, or a function type of two types
that have numbers already.  A pool that evolves in this way from the empty one
is canonical: each number that has been given out stands for one type, and each
type has one number.  Evolving only adds types at the end, so whatever was said
of a number stays true.
-/

namespace LambdaCalculus
namespace TypePool

/-! ## Evolution -/

/-- One type is numbered: a base type, or a function type of two types that have
been numbered. -/
inductive NumbersOne : TypePool -> TypePool -> Prop
  | base
      (types : TypePool)
      (name : Text) :
      NumbersOne types (types.base name).2
  | function
      {types : TypePool}
      {parameter result : TypeId}
      (parameterValid : types.isValid parameter = true)
      (resultValid : types.isValid result = true) :
      NumbersOne types (types.function parameter result).2

/-- The later pool comes from the earlier one by numbering types one after
another. -/
def EvolvesTo : TypePool -> TypePool -> Prop :=
  Relation.ReflTransGen NumbersOne

namespace EvolvesTo

theorem refl
    (types : TypePool) :
    types.EvolvesTo types :=
  Relation.ReflTransGen.refl

theorem trans
    {types between later : TypePool}
    (first : types.EvolvesTo between)
    (second : between.EvolvesTo later) :
    types.EvolvesTo later :=
  Relation.ReflTransGen.trans first second

theorem base
    (types : TypePool)
    (name : Text) :
    types.EvolvesTo (types.base name).2 :=
  Relation.ReflTransGen.single (.base types name)

theorem function
    {types : TypePool}
    {parameter result : TypeId}
    (parameterValid : types.isValid parameter = true)
    (resultValid : types.isValid result = true) :
    types.EvolvesTo (types.function parameter result).2 :=
  Relation.ReflTransGen.single (.function parameterValid resultValid)

end EvolvesTo

/-! ## One step and whole evolutions -/

theorem NumbersOne.grows
    {types later : TypePool}
    (numbers : NumbersOne types later) :
    types.GrowsTo later := by
  cases numbers with
  | base name => exact types.grows_intern (.base name)
  | @function parameter result _ _ =>
      exact types.grows_intern (.function parameter result)

theorem NumbersOne.built
    {types later : TypePool}
    (numbers : NumbersOne types later)
    (built : types.Built fun _ => True) :
    later.Built fun _ => True := by
  cases numbers with
  | base name => exact .base built trivial
  | function parameterValid resultValid =>
      exact .function built parameterValid resultValid

/-- Types are added at the end only. -/
theorem EvolvesTo.grows
    {types later : TypePool}
    (evolves : types.EvolvesTo later) :
    types.GrowsTo later := by
  induction evolves with
  | refl => exact GrowsTo.refl types
  | tail _ last inductionHypothesis =>
      exact inductionHypothesis.trans last.grows

/-- A pool that evolves from one that is built is built. -/
theorem EvolvesTo.built
    {types later : TypePool}
    (evolves : types.EvolvesTo later)
    (built : types.Built fun _ => True) :
    later.Built fun _ => True := by
  induction evolves with
  | refl => exact built
  | tail _ last inductionHypothesis => exact last.built inductionHypothesis

/-! ## Canonical pools -/

/-- Each number that has been given out stands for one type, and each type has
one number. -/
structure Canonical (types : TypePool) : Prop where
  /-- A number that has been given out denotes its tree. -/
  denotes : ∀ type, types.isValid type = true ->
    types.Denotes type (types.tree type)
  /-- Zero, and no other number that has been given out, is the error type. -/
  error : ∀ type, types.isValid type = true ->
    (types.former? type = none ↔ type = errorId) ∧
      (types.tree type = .error ↔ type = errorId)
  /-- The parts of a function type have smaller numbers. -/
  older : ∀ (type parameter result : Nat),
    types.function? type = some (parameter, result) ->
      parameter < type ∧ result < type
  /-- Two numbers are the same exactly if they stand for the same type. -/
  injective : ∀ left right,
    types.isValid left = true -> types.isValid right = true ->
      (types.tree left = types.tree right ↔ left = right)

/-- A number that has been given out is zero, or a type is formed under it. -/
theorem eq_errorId_or_former?
    {types : TypePool}
    (valid : types.isValid type = true) :
    type = errorId ∨ ∃ former, types.former? type = some former := by
  cases type with
  | zero => exact Or.inl rfl
  | succ position =>
      have bound : position + 1 < types.formers.length + 1 :=
        of_decide_eq_true valid
      have inside : position < types.formers.length := by omega
      exact Or.inr ⟨_, List.getElem?_eq_getElem inside⟩

theorem former?_of_function?
    {types : TypePool}
    {parameter result : TypeId}
    (isFunction : types.function? type = some (parameter, result)) :
    types.former? type = some (.function parameter result) := by
  unfold function? at isFunction
  split at isFunction
  next formed =>
      cases isFunction
      exact formed
  next => cases isFunction

theorem WellFormed.canonical
    {types : TypePool}
    (wellFormed : types.WellFormed permitted) :
    types.Canonical := by
  have denotes : ∀ type, types.isValid type = true ->
      types.Denotes type (types.tree type) :=
    fun type valid => Denotes.of_denotesType (wellFormed.denotesType valid)
  have errorTree : types.tree errorId = .error := Denotes.error.tree_eq
  constructor
  case denotes => exact denotes
  case error =>
    intro type valid
    constructor
    · constructor
      · intro missing
        rcases eq_errorId_or_former? valid with isError | ⟨former, formed⟩
        · exact isError
        · rw [formed] at missing
          cases missing
      · rintro rfl
        rfl
    · constructor
      · intro sameTree
        have typeDenotes := denotes type valid
        rw [sameTree] at typeDenotes
        exact typeDenotes.injective wellFormed.nodup .error
      · rintro rfl
        exact errorTree
  case older =>
    intro type parameter result isFunction
    exact wellFormed.parts_lt (former?_of_function? isFunction)
  case injective =>
    intro left right leftValid rightValid
    constructor
    · intro sameTree
      have leftDenotes := denotes left leftValid
      rw [sameTree] at leftDenotes
      exact leftDenotes.injective wellFormed.nodup (denotes right rightValid)
    · rintro rfl
      rfl

/-- Every pool that evolves from the empty one is canonical. -/
theorem EvolvesTo.canonical
    {types : TypePool}
    (evolves : TypePool.empty.EvolvesTo types) :
    types.Canonical :=
  (evolves.built .empty).wellFormed.canonical

/-! ## Earlier numbers -/

/-- What was known of the number in the earlier pool holds in the later one. -/
structure Keeps
    (types later : TypePool)
    (type : TypeId) : Prop where
  /-- The number stays given out. -/
  isValid : later.isValid type = true
  /-- The type is formed in the same way: its kind, its parts and its name. -/
  former : later.former? type = types.former? type
  /-- It is the same tree. -/
  tree : later.tree type = types.tree type
  /-- It is shown in the same way. -/
  text : later.text type = types.text type

theorem GrowsTo.keeps
    {types later : TypePool}
    (canonical : types.Canonical)
    (grows : types.GrowsTo later)
    (valid : types.isValid type = true) :
    types.Keeps later type := by
  have sameTree : later.tree type = types.tree type :=
    ((canonical.denotes type valid).grow grows).tree_eq
  constructor
  case isValid => exact isValid_grow valid grows
  case former =>
    rcases eq_errorId_or_former? valid with rfl | ⟨former, formed⟩
    · rfl
    · rw [formed, grows.former?_eq formed]
  case tree => exact sameTree
  case text => rw [TypePool.text, TypePool.text, sameTree]

end TypePool
end LambdaCalculus
