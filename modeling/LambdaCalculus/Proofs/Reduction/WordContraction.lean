import LambdaCalculus.Proofs.Term.Instantiation
import LambdaCalculus.Reduction.Run
import LambdaCalculus.Term.Shift

/-!
# Contraction in 64-bit words

As long as no index comes near the sign bit, shifting a term up in words is
raising it, and shifting down undoes that.  So the contraction in words, which
raises the argument, puts it in place and lowers the result, is defined and is
the instantiation of the body.  Both strategies contract in words as they do
with unbounded indices.
-/

namespace LambdaCalculus
namespace Term

/-- Every index, bound or free, is below the limit. -/
def indicesBelow (limit : Nat) : Term -> Bool
  | .var _ index => index < limit
  | .abs _ _ body => body.indicesBelow limit
  | .app _ function argument =>
      function.indicesBelow limit && argument.indicesBelow limit

/-- No occurrence of the variable that is `place` binders away from the root has
more than `limit` binders between itself and the one that binds it. -/
def occursWithin (limit : Nat) : Term -> (place : Nat) -> Bool
  | .var _ index, place => index != place || place ≤ limit
  | .abs _ _ body, place => body.occursWithin limit (place + 1)
  | .app _ function argument, place =>
      function.occursWithin limit place && argument.occursWithin limit place

/-- No index and no count of binders reaches the sign bit while a body takes an
argument. -/
structure ContractionFits
    (body argument : Term) : Prop where
  /-- The indices of the body are positive as signed words. -/
  bodyBelow : body.indicesBelow Word.signBit = true
  /-- So are those of the argument after it is raised by one and over all
  binders of the body. -/
  argumentBelow :
    argument.indicesBelow (Word.signBit - 1 - body.binderDepth) = true
  /-- The binders of both can be counted. -/
  depthBelow : body.binderDepth + argument.binderDepth < Word.signBit

/-! ## Shifting -/

theorem shiftIndex_of_lt
    (delta : Int)
    (bound : index < cutoff) :
    shiftIndex delta cutoff index = some index := by
  rw [shiftIndex, if_pos bound]

/-- A free index moves unless it would fall below the cutoff. -/
theorem shiftIndex_of_le
    {delta : Int}
    (moved : Nat)
    (free : cutoff ≤ index)
    (small : index < Word.signBit)
    (reaches : (index : Int) + delta = moved)
    (movedSmall : moved < Word.signBit)
    (stays : cutoff ≤ moved) :
    shiftIndex delta cutoff index = some moved := by
  have wordSmall : (moved : Int) < Word.modulus := by
    have smaller : Word.signBit < Word.modulus := by decide
    omega
  rw [shiftIndex, if_neg (by omega)]
  simp only [Word.signed_of_lt small, reaches,
    Word.signed_of_lt (Nat.lt_of_le_of_lt stays movedSmall)]
  rw [if_neg (by omega),
    Word.ofSigned_of_nonneg (Int.natCast_nonneg moved) wordSmall,
    Int.toNat_natCast]

theorem next_of_lt_signBit
    (small : word < Word.signBit) :
    Word.next word = word + 1 := by
  apply Word.next_of_lt
  have smaller : Word.signBit < Word.modulus := by decide
  omega

/-- Shifting up in words is raising. -/
theorem shift_natCast
    {term : Term}
    (limit amount cutoff : Nat)
    (below : term.indicesBelow limit = true)
    (small : limit + amount ≤ Word.signBit)
    (depth : cutoff + term.binderDepth < Word.signBit) :
    term.shift amount cutoff = some (term.raise amount cutoff) := by
  induction term generalizing cutoff with
  | var span index =>
      rw [indicesBelow, decide_eq_true_eq] at below
      rw [shift]
      rcases Nat.lt_or_ge index cutoff with bound | free
      · rw [shiftIndex_of_lt _ bound, raise_var_of_lt span amount bound]
        rfl
      · rw [shiftIndex_of_le (index + amount) free (by omega)
          (by omega) (by omega) (by omega), raise_var_of_le span amount free]
        rfl
  | abs span declared body bodyHypothesis =>
      rw [binderDepth] at depth
      rw [shift, next_of_lt_signBit (by omega),
        bodyHypothesis (cutoff + 1) below (by omega)]
      rfl
  | app span function argument functionHypothesis argumentHypothesis =>
      rw [indicesBelow, Bool.and_eq_true] at below
      rw [binderDepth] at depth
      rw [shift, functionHypothesis cutoff below.1 (by omega),
        argumentHypothesis cutoff below.2 (by omega)]
      rfl

/-- Shifting a raised term down by one raises it by one less. -/
theorem shift_neg_one_raise
    {term : Term}
    (limit amount cutoff : Nat)
    (below : term.indicesBelow limit = true)
    (small : limit + amount + 1 ≤ Word.signBit)
    (depth : amount + cutoff + term.binderDepth < Word.signBit) :
    (term.raise (amount + 1) cutoff).shift (-1) (amount + cutoff) =
      some (term.raise amount cutoff) := by
  induction term generalizing cutoff with
  | var span index =>
      rw [indicesBelow, decide_eq_true_eq] at below
      rcases Nat.lt_or_ge index cutoff with bound | free
      · rw [raise_var_of_lt span _ bound, raise_var_of_lt span _ bound, shift,
          shiftIndex_of_lt _ (by omega)]
        rfl
      · rw [raise_var_of_le span _ free, raise_var_of_le span _ free, shift,
          shiftIndex_of_le (index + amount) (by omega) (by omega)
            (by omega) (by omega) (by omega)]
        rfl
  | abs span declared body bodyHypothesis =>
      rw [binderDepth] at depth
      rw [raise_abs, shift, next_of_lt_signBit (by omega), Nat.add_assoc,
        bodyHypothesis (cutoff + 1) below (by omega)]
      rfl
  | app span function argument functionHypothesis argumentHypothesis =>
      rw [indicesBelow, Bool.and_eq_true] at below
      rw [binderDepth] at depth
      rw [raise_app, shift, functionHypothesis cutoff below.1 (by omega),
        argumentHypothesis cutoff below.2 (by omega)]
      rfl

theorem binderDepth_raise
    (term : Term)
    (amount cutoff : Nat) :
    (term.raise amount cutoff).binderDepth = term.binderDepth := by
  induction term generalizing cutoff with
  | var span index => rfl
  | abs span declared body bodyHypothesis =>
      rw [raise_abs, binderDepth, bodyHypothesis, binderDepth]
  | app span function argument functionHypothesis argumentHypothesis =>
      rw [raise_app, binderDepth, functionHypothesis, argumentHypothesis,
        binderDepth]

theorem indicesBelow_raise
    {term : Term}
    (amount cutoff : Nat)
    (below : term.indicesBelow limit = true) :
    (term.raise amount cutoff).indicesBelow (limit + amount) = true := by
  induction term generalizing cutoff with
  | var span index =>
      rw [indicesBelow, decide_eq_true_eq] at below
      rw [raise_var, indicesBelow, decide_eq_true_eq]
      split <;> omega
  | abs span declared body bodyHypothesis =>
      exact bodyHypothesis (cutoff + 1) below
  | app span function argument functionHypothesis argumentHypothesis =>
      rw [indicesBelow, Bool.and_eq_true] at below
      rw [raise_app, indicesBelow, functionHypothesis cutoff below.1,
        argumentHypothesis cutoff below.2]
      rfl

/-! ## Contraction -/

/-- The replacement for the variable of the contracted binder is the argument,
raised by one and over the binders passed so far; lowering takes the one back. -/
theorem exists_shift_of_place
    {argument : Term}
    (limit depth : Nat)
    (below : argument.indicesBelow limit = true)
    (small : limit + depth + 1 ≤ Word.signBit)
    (depthBelow : depth + argument.binderDepth < Word.signBit) :
    ∃ replaced,
      (if depth = 0 then some (argument.raise 1 0)
        else (argument.raise 1 0).shift (Word.signed depth) 0) =
          some replaced ∧
      replaced.shift (-1) depth = some (argument.raise depth 0) := by
  refine ⟨argument.raise (depth + 1) 0, ?_,
    shift_neg_one_raise limit depth 0 below small depthBelow⟩
  split
  next atRoot => rw [atRoot]
  next =>
      rw [Word.signed_of_lt (by omega),
        shift_natCast (limit + 1) depth 0 (indicesBelow_raise 1 0 below)
          (by omega) (by rw [binderDepth_raise]; omega),
        raise_raise_of_le argument (Nat.le_refl 0) (Nat.zero_le _),
        Nat.add_comm 1]

/-- Replacing the variable of the contracted binder, which is `depth` binders
away, and lowering the rest instantiates the body.  The argument is raised over
`reach` binders at most, which may be fewer than the body has. -/
theorem exists_shift_of_substituteShiftingUnder
    {body argument : Term}
    (limit reach depth : Nat)
    (bodyBelow : body.indicesBelow Word.signBit = true)
    (within : body.occursWithin reach depth = true)
    (argumentBelow : argument.indicesBelow limit = true)
    (small : limit + reach + 1 ≤ Word.signBit)
    (bodyDepth : depth + body.binderDepth < Word.signBit)
    (argumentDepth : reach + argument.binderDepth < Word.signBit) :
    ∃ replaced,
      body.substituteShiftingUnder depth depth (argument.raise 1 0) =
        some replaced ∧
      replaced.shift (-1) depth = some (body.instantiateAt depth argument) := by
  induction body generalizing depth with
  | var span index =>
      rw [indicesBelow, decide_eq_true_eq] at bodyBelow
      rw [substituteShiftingUnder]
      split
      next here =>
          have reached : depth ≤ reach := by
            simpa [occursWithin, here] using within
          rw [instantiateAt_var_of_eq span argument here]
          exact exists_shift_of_place limit depth argumentBelow (by omega)
            (by omega)
      next different =>
          refine ⟨_, rfl, ?_⟩
          rw [shift]
          rcases Nat.lt_or_ge index depth with bound | free
          · rw [shiftIndex_of_lt _ bound,
              instantiateAt_var_of_lt span argument bound]
            rfl
          · rw [shiftIndex_of_le (index - 1) free bodyBelow (by omega)
              (by omega) (by omega),
              instantiateAt_var_of_gt span argument (by omega)]
            rfl
  | abs span declared inner innerHypothesis =>
      rw [binderDepth] at bodyDepth
      obtain ⟨replaced, placed, lowered⟩ := innerHypothesis (depth + 1)
        bodyBelow within (by omega)
      refine ⟨.abs span declared replaced, ?_, ?_⟩
      · rw [substituteShiftingUnder, next_of_lt_signBit (by omega), placed]
        rfl
      · rw [shift, next_of_lt_signBit (by omega), lowered]
        rfl
  | app span function operand functionHypothesis operandHypothesis =>
      rw [indicesBelow, Bool.and_eq_true] at bodyBelow
      rw [occursWithin, Bool.and_eq_true] at within
      rw [binderDepth] at bodyDepth
      obtain ⟨replacedFunction, functionPlaced, functionLowered⟩ :=
        functionHypothesis depth bodyBelow.1 within.1 (by omega)
      obtain ⟨replacedOperand, operandPlaced, operandLowered⟩ :=
        operandHypothesis depth bodyBelow.2 within.2 (by omega)
      refine ⟨.app span replacedFunction replacedOperand, ?_, ?_⟩
      · rw [substituteShiftingUnder, functionPlaced, operandPlaced]
      · rw [shift, functionLowered, operandLowered]
        rfl

/-- The contraction in words is defined and instantiates the body, if no index of
the argument becomes too large where the variable occurs. -/
theorem contract_eq_of_occursWithin
    {body argument : Term}
    (limit reach : Nat)
    (bodyBelow : body.indicesBelow Word.signBit = true)
    (within : body.occursWithin reach 0 = true)
    (argumentBelow : argument.indicesBelow limit = true)
    (small : limit + reach + 1 ≤ Word.signBit)
    (bodyDepth : body.binderDepth < Word.signBit)
    (argumentDepth : reach + argument.binderDepth < Word.signBit) :
    body.contract argument = some (body.instantiate argument) := by
  have lifted : argument.shift 1 0 = some (argument.raise 1 0) :=
    shift_natCast limit 1 0 argumentBelow (by omega) (by omega)
  obtain ⟨replaced, placed, lowered⟩ :=
    exists_shift_of_substituteShiftingUnder limit reach 0 bodyBelow within
      argumentBelow small (by omega) argumentDepth
  rw [contract, lifted, Option.bind_some, substituteShifting, placed,
    Option.bind_some, lowered]
  rfl

/-- A variable does not occur deeper than the term goes. -/
theorem occursWithin_of_binderDepth
    {term : Term}
    {place : Nat}
    (deep : place + term.binderDepth ≤ limit) :
    term.occursWithin limit place = true := by
  induction term generalizing place with
  | var span index =>
      have reached : place ≤ limit := by
        rw [binderDepth] at deep
        exact deep
      simp [occursWithin, reached]
  | abs span declared body bodyHypothesis =>
      rw [binderDepth] at deep
      exact bodyHypothesis (by omega)
  | app span function argument functionHypothesis argumentHypothesis =>
      rw [binderDepth] at deep
      rw [occursWithin, functionHypothesis (by omega),
        argumentHypothesis (by omega)]
      rfl

/-- The contraction in words is defined and instantiates the body. -/
theorem ContractionFits.contract_eq
    (fits : ContractionFits body argument) :
    body.contract argument = some (body.instantiate argument) := by
  obtain ⟨bodyBelow, argumentBelow, depthBelow⟩ := fits
  exact contract_eq_of_occursWithin _ body.binderDepth bodyBelow
    (occursWithin_of_binderDepth (by omega)) argumentBelow (by omega) (by omega)
    depthBelow

/-- Verbatim substitution in words does not wrap around. -/
theorem substituteWrapping_eq
    {body : Term}
    (target : Nat)
    (argument : Term)
    (small : target + body.binderDepth < Word.signBit) :
    body.substituteWrapping target argument =
      body.substitute target argument := by
  induction body generalizing target with
  | var span index => rfl
  | abs span declared inner innerHypothesis =>
      rw [binderDepth] at small
      rw [substituteWrapping, next_of_lt_signBit (by omega),
        innerHypothesis (target + 1) (by omega)]
      rfl
  | app span function operand functionHypothesis operandHypothesis =>
      rw [binderDepth] at small
      rw [substituteWrapping, functionHypothesis target (by omega),
        operandHypothesis target (by omega)]
      rfl

end Term

/-- The contraction that a strategy performs in words; `none` when an index
would be captured. -/
def Strategy.contractInWords : Strategy -> Term -> Term -> Option Term
  | .weakHead, body, argument => some (body.substituteWrapping 0 argument)
  | .full, body, argument => body.contract argument

theorem Strategy.contractInWords_eq
    (strategy : Strategy)
    (fits : Term.ContractionFits body argument) :
    strategy.contractInWords body argument =
      some (strategy.contract body argument) := by
  cases strategy with
  | weakHead =>
      have small : 0 + body.binderDepth < Word.signBit := by
        have depthBelow := fits.depthBelow
        omega
      exact congrArg some (Term.substituteWrapping_eq 0 argument small)
  | full => exact fits.contract_eq

end LambdaCalculus
