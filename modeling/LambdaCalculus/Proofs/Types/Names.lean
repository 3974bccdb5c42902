import LambdaCalculus.Proofs.Types.Denotation

/-!
# The names of base types

The names in a type are those of the base types in the pool that it is taken
from.  Numbering a type adds its own names to the pool and no others, and a
function type has no name at all.
-/

namespace LambdaCalculus

/-- The names in the type are permitted. -/
def TypeTree.NamedBy
    (permitted : Text -> Prop) : TypeTree -> Prop
  | .invalid => True
  | .error => True
  | .base name => permitted name
  | .arrow parameter result =>
      parameter.NamedBy permitted ∧ result.NamedBy permitted

namespace TypePool

/-- The names of the base types in the pool are permitted. -/
def NamedBy
    (permitted : Text -> Prop)
    (types : TypePool) : Prop :=
  ∀ type name, types.former? type = some (.base name) -> permitted name

theorem NamedBy.mono
    {types : TypePool}
    {narrow wide : Text -> Prop}
    (named : types.NamedBy narrow)
    (wider : ∀ name, narrow name -> wide name) :
    types.NamedBy wide :=
  fun type name formed => wider name (named type name formed)

theorem WellFormed.namedBy
    {types : TypePool}
    (wellFormed : types.WellFormed permitted) :
    types.NamedBy permitted :=
  fun type _ formed => wellFormed.allowed type _ formed

/-- A function type has no name. -/
theorem NamedBy.function
    {types : TypePool}
    (named : types.NamedBy permitted)
    (parameter result : TypeId) :
    (types.function parameter result).2.NamedBy permitted := by
  intro type name formed
  rcases former?_intern formed with old | ⟨_, isFunction⟩
  · exact named type name old
  · cases isFunction

theorem NamedBy.unfold
    {types : TypePool}
    (named : types.NamedBy permitted)
    (depth : Nat)
    (type : TypeId) :
    (types.unfold depth type).NamedBy permitted := by
  induction depth generalizing type with
  | zero => exact trivial
  | succ depth inductionHypothesis =>
      unfold TypePool.unfold
      split
      next => exact trivial
      next =>
          split
          next => exact trivial
          next name formed => exact named type name formed
          next parameter result formed =>
              exact ⟨inductionHypothesis parameter, inductionHypothesis result⟩

/-- The tree of a number has permitted names only. -/
theorem NamedBy.tree
    {types : TypePool}
    (named : types.NamedBy permitted)
    (type : TypeId) :
    (types.tree type).NamedBy permitted :=
  named.unfold types.count type

/-! ## Numbers that have been given out -/

theorem isValid_intern
    (types : TypePool)
    (former : TypeFormer) :
    (types.intern former).2.isValid (types.intern former).1 = true :=
  decide_eq_true
    (lt_count_of_former? (types.interned_intern former).former?_eq)

theorem isValid_grow
    {types later : TypePool}
    (valid : types.isValid type = true)
    (grows : types.GrowsTo later) :
    later.isValid type = true := by
  have longer : types.formers.length ≤ later.formers.length := grows.length_le
  have bound : type < types.formers.length + 1 := of_decide_eq_true valid
  exact decide_eq_true (Nat.lt_of_lt_of_le bound (Nat.succ_le_succ longer))

end TypePool

/-! ## Proper types -/

theorem TypeTree.isComplete_of_isProper
    {tree : TypeTree}
    (proper : tree.isProper = true) :
    tree.isComplete = true := by
  induction tree with
  | invalid => cases proper
  | error => rfl
  | base name => rfl
  | arrow parameter result parameterHypothesis resultHypothesis =>
      rw [isProper, Bool.and_eq_true] at proper
      rw [isComplete, parameterHypothesis proper.1, resultHypothesis proper.2]
      rfl

/-- A number that stands for a proper type does so while the pool grows. -/
theorem TypePool.isProper_grow
    {types later : TypePool}
    (proper : (types.tree type).isProper = true)
    (grows : types.GrowsTo later) :
    (later.tree type).isProper = true := by
  have denotes := Denotes.of_denotesType
    (TypeTree.isComplete_of_isProper proper)
  rw [(denotes.grow grows).tree_eq]
  exact proper

/-! ## Numbering trees -/

/-- Numbering a type with permitted names keeps a pool built from such names. -/
theorem TypeTree.built_number
    {types : TypePool}
    (tree : TypeTree)
    (named : tree.NamedBy permitted)
    (built : types.Built permitted) :
    (tree.number types).2.Built permitted ∧
      (tree.number types).2.isValid (tree.number types).1 = true := by
  induction tree generalizing types with
  | invalid => exact ⟨built, decide_eq_true (Nat.succ_pos _)⟩
  | error => exact ⟨built, decide_eq_true (Nat.succ_pos _)⟩
  | base name => exact ⟨.base built named, types.isValid_intern (.base name)⟩
  | arrow parameter result parameterHypothesis resultHypothesis =>
      obtain ⟨parameterBuilt, parameterValid⟩ :=
        parameterHypothesis named.1 built
      obtain ⟨resultBuilt, resultValid⟩ :=
        resultHypothesis named.2 parameterBuilt
      have stillValid := TypePool.isValid_grow parameterValid
        (result.grows_number (parameter.number types).2)
      exact ⟨.function resultBuilt stillValid resultValid,
        TypePool.isValid_intern _ _⟩

end LambdaCalculus
