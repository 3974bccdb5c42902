import LambdaCalculus.Proofs.Reduction.WordContraction
import LambdaCalculus.Proofs.Term.Nodes

/-!
# Shifting in both directions

A shift adds a signed number to the indices that point past a cutoff, and the
cutoff grows with every binder on the way.  It fails exactly if one of these
indices would fall below its cutoff.  As a relation between two terms, shifting
by `delta` is the converse of shifting by `-delta`; a shift that succeeds is
therefore undone by the opposite one.
-/

namespace LambdaCalculus
namespace Term

/-- Neither an index nor a cutoff reaches the sign bit while a term is shifted. -/
structure ShiftFits
    (term : Term)
    (delta : Int)
    (cutoff : Nat) : Prop where
  /-- The indices are positive as signed words. -/
  below : term.indicesBelow Word.signBit = true
  /-- No index becomes too large when `delta` is added to it. -/
  movedBelow : term.indicesBelow (Word.signBit - delta).toNat = true
  /-- The cutoff can be counted up over the binders of the term. -/
  depthBelow : cutoff + term.binderDepth < Word.signBit

/-- The second term is the first with `delta` added to the indices that point
past `cutoff` binders, all of which still do. -/
inductive Shifted (delta : Int) : Nat -> Term -> Term -> Prop
  | bound
      (span : Span)
      (below : index < cutoff) :
      Shifted delta cutoff (.var span index) (.var span index)
  | free
      {cutoff index moved : Nat}
      (span : Span)
      (above : cutoff ≤ index)
      (stays : cutoff ≤ moved)
      (reaches : (index : Int) + delta = moved) :
      Shifted delta cutoff (.var span index) (.var span moved)
  | abs
      (span : Span)
      (declared : Option TypeId)
      (bodyShifted : Shifted delta (cutoff + 1) body movedBody) :
      Shifted delta cutoff (.abs span declared body)
        (.abs span declared movedBody)
  | app
      (span : Span)
      (functionShifted : Shifted delta cutoff function movedFunction)
      (argumentShifted : Shifted delta cutoff argument movedArgument) :
      Shifted delta cutoff (.app span function argument)
        (.app span movedFunction movedArgument)

variable {delta : Int} {cutoff : Nat} {term moved node : Term}

/-! ## Fitting terms -/

namespace ShiftFits

theorem index_lt
    {span : Span}
    (fits : ShiftFits (.var span index) delta cutoff) :
    index < Word.signBit ∧ (index : Int) + delta < Word.signBit := by
  have below := of_decide_eq_true fits.below
  have movedBelow := of_decide_eq_true fits.movedBelow
  omega

theorem body
    {inner : Term}
    {span : Span}
    (fits : ShiftFits (.abs span declared inner) delta cutoff) :
    ShiftFits inner delta (cutoff + 1) := by
  have depthBelow := fits.depthBelow
  rw [binderDepth] at depthBelow
  exact ⟨fits.below, fits.movedBelow, by omega⟩

theorem parts
    {function argument : Term}
    {span : Span}
    (fits : ShiftFits (.app span function argument) delta cutoff) :
    ShiftFits function delta cutoff ∧ ShiftFits argument delta cutoff := by
  obtain ⟨below, movedBelow, depthBelow⟩ := fits
  rw [indicesBelow, Bool.and_eq_true] at below movedBelow
  rw [binderDepth] at depthBelow
  exact ⟨⟨below.1, movedBelow.1, by omega⟩, ⟨below.2, movedBelow.2, by omega⟩⟩

end ShiftFits

/-! ## The relation -/

namespace Shifted

/-- What a shift did, the opposite shift undoes. -/
theorem symm
    (shifted : Shifted delta cutoff term moved) :
    Shifted (-delta) cutoff moved term := by
  induction shifted with
  | bound span below => exact bound span below
  | free span above stays reaches => exact free span stays above (by omega)
  | abs span declared bodyShifted bodyHypothesis =>
      exact abs span declared bodyHypothesis
  | app span functionShifted argumentShifted functionHypothesis
      argumentHypothesis =>
      exact app span functionHypothesis argumentHypothesis

theorem binderDepth_eq
    (shifted : Shifted delta cutoff term moved) :
    moved.binderDepth = term.binderDepth := by
  induction shifted with
  | bound => rfl
  | free => rfl
  | abs span declared bodyShifted bodyHypothesis =>
      rw [binderDepth, bodyHypothesis, binderDepth]
  | app span functionShifted argumentShifted functionHypothesis
      argumentHypothesis =>
      rw [binderDepth, functionHypothesis, argumentHypothesis, binderDepth]

theorem indicesBelow
    (shifted : Shifted delta cutoff term moved)
    (fits : ShiftFits term delta cutoff) :
    moved.indicesBelow Word.signBit = true := by
  induction shifted with
  | bound => exact fits.below
  | free span above stays reaches =>
      have movedSmall := fits.index_lt.2
      exact decide_eq_true (by omega)
  | abs span declared bodyShifted bodyHypothesis =>
      exact bodyHypothesis fits.body
  | app span functionShifted argumentShifted functionHypothesis
      argumentHypothesis =>
      rw [Term.indicesBelow, functionHypothesis fits.parts.1,
        argumentHypothesis fits.parts.2]
      rfl

/-- Shifting in words finds the shifted term.  Both terms are asked to have small
indices, so that the statement can be read backwards too. -/
theorem shift_eq
    (shifted : Shifted delta cutoff term moved)
    (below : term.indicesBelow Word.signBit = true)
    (movedBelow : moved.indicesBelow Word.signBit = true)
    (depthBelow : cutoff + term.binderDepth < Word.signBit) :
    term.shift delta cutoff = some moved := by
  induction shifted with
  | bound span bound =>
      rw [shift, shiftIndex_of_lt delta bound]
      rfl
  | free span above stays reaches =>
      rw [shift, shiftIndex_of_le _ above (of_decide_eq_true below) reaches
        (of_decide_eq_true movedBelow) stays]
      rfl
  | abs span declared bodyShifted bodyHypothesis =>
      rw [binderDepth] at depthBelow
      rw [shift, next_of_lt_signBit (by omega),
        bodyHypothesis below movedBelow (by omega)]
      rfl
  | app span functionShifted argumentShifted functionHypothesis
      argumentHypothesis =>
      rw [Term.indicesBelow, Bool.and_eq_true] at below movedBelow
      rw [binderDepth] at depthBelow
      rw [shift, functionHypothesis below.1 movedBelow.1 (by omega),
        argumentHypothesis below.2 movedBelow.2 (by omega)]

/-- Below a branch the cutoff is farther away. -/
theorem child
    (shifted : Shifted delta cutoff term moved)
    (found : term.child? branch = some node) :
    ∃ movedNode, moved.child? branch = some movedNode ∧
      Shifted delta (cutoff + Branch.binders [branch]) node movedNode := by
  cases shifted with
  | bound => cases found
  | free => cases found
  | abs span declared bodyShifted =>
      cases branch <;> cases found
      exact ⟨_, rfl, bodyShifted⟩
  | app span functionShifted argumentShifted =>
      cases branch <;> cases found
      · exact ⟨_, rfl, functionShifted⟩
      · exact ⟨_, rfl, argumentShifted⟩

/-- Every node of the term is shifted, with the cutoff raised by the binders
around it. -/
theorem nodeAt
    (shifted : Shifted delta cutoff term moved)
    (found : term.nodeAt? path = some node) :
    ∃ movedNode, moved.nodeAt? path = some movedNode ∧
      Shifted delta (cutoff + Branch.binders path) node movedNode := by
  induction path generalizing term moved cutoff with
  | nil =>
      cases found
      exact ⟨moved, rfl, shifted⟩
  | cons branch path inductionHypothesis =>
      obtain ⟨child, isChild, below⟩ := Option.bind_eq_some_iff.mp found
      obtain ⟨movedChild, isMovedChild, childShifted⟩ := shifted.child isChild
      obtain ⟨movedNode, isMovedNode, nodeShifted⟩ :=
        inductionHypothesis childShifted below
      refine ⟨movedNode, ?_, ?_⟩
      · rw [nodeAt?, isMovedChild]
        exact isMovedNode
      · rw [Branch.binders_cons, ← Nat.add_assoc]
        exact nodeShifted

theorem root_eq
    (shifted : Shifted delta cutoff term moved) :
    moved.root = term.root.mapIndex fun index =>
      if index < cutoff then index else ((index : Int) + delta).toNat := by
  cases shifted with
  | bound span below => simp only [root, Root.mapIndex, if_pos below]
  | free span above stays reaches =>
      simp only [root, Root.mapIndex, if_neg (Nat.not_lt.mpr above), reaches,
        Int.toNat_natCast]
  | abs => rfl
  | app => rfl

/-- Shifting changes the indices past the cutoff and nothing else. -/
theorem rootAt?_eq
    (shifted : Shifted delta cutoff term moved)
    (path : List Branch) :
    moved.rootAt? path =
      (term.rootAt? path).map (Root.mapIndex fun index =>
        if index < cutoff + Branch.binders path then index
        else ((index : Int) + delta).toNat) := by
  rw [rootAt?, rootAt?]
  cases found : term.nodeAt? path with
  | some node =>
      obtain ⟨movedNode, isMovedNode, nodeShifted⟩ := shifted.nodeAt found
      rw [isMovedNode, Option.map_some, nodeShifted.root_eq]
      rfl
  | none =>
      cases movedFound : moved.nodeAt? path with
      | none => rfl
      | some movedNode =>
          obtain ⟨node, isNode, _⟩ := shifted.symm.nodeAt movedFound
          rw [found] at isNode
          cases isNode

end Shifted

/-! ## Captured indices -/

/-- Adding `delta` to an index that points past the cutoff, which is farther away
by the binders around the index, would make it point below. -/
def Captures
    (delta : Int)
    (cutoff : Nat)
    (term : Term) : Prop :=
  ∃ path span index, term.rootAt? path = some (.var span index) ∧
    cutoff + Branch.binders path ≤ index ∧
    (index : Int) + delta < (cutoff + Branch.binders path : Nat)

theorem Captures.of_child
    (branch : Branch)
    (isChild : term.child? branch = some node)
    (captures : Captures delta (cutoff + Branch.binders [branch]) node) :
    Captures delta cutoff term := by
  obtain ⟨path, span, index, found, above, falls⟩ := captures
  rw [Nat.add_assoc, ← Branch.binders_cons] at above falls
  exact ⟨branch :: path, span, index, (rootAt?_of_child isChild path).trans found,
    above, falls⟩

/-- A shifted term captures nothing. -/
theorem Shifted.not_captures
    (shifted : Shifted delta cutoff term moved) :
    ¬ Captures delta cutoff term := by
  rintro ⟨path, span, index, found, above, falls⟩
  obtain ⟨node, isNode, isRoot⟩ := Option.map_eq_some_iff.mp found
  obtain ⟨movedNode, _, nodeShifted⟩ := shifted.nodeAt isNode
  cases node <;> cases isRoot
  cases nodeShifted with
  | bound span below => omega
  | free span above stays reaches => omega

theorem shift_var_of_captured
    (span : Span)
    (above : cutoff ≤ index)
    (small : index < Word.signBit)
    (falls : (index : Int) + delta < cutoff) :
    (var span index).shift delta cutoff = none := by
  have cutoffSmall : cutoff < Word.signBit := Nat.lt_of_le_of_lt above small
  rw [shift, shiftIndex, if_neg (Nat.not_lt.mpr above)]
  simp only [Word.signed_of_lt small, Word.signed_of_lt cutoffSmall,
    if_pos falls, Option.map_none]

/-- A term can be shifted, or shifting it fails because of a captured index. -/
theorem shifted_or_captures
    (fits : ShiftFits term delta cutoff) :
    (∃ moved, Shifted delta cutoff term moved) ∨
      (term.shift delta cutoff = none ∧ Captures delta cutoff term) := by
  induction term generalizing cutoff with
  | var span index =>
      obtain ⟨small, movedSmall⟩ := fits.index_lt
      rcases Nat.lt_or_ge index cutoff with below | above
      · exact .inl ⟨_, .bound span below⟩
      · by_cases falls : (index : Int) + delta < cutoff
        · exact .inr ⟨shift_var_of_captured span above small falls,
            [], span, index, rfl, above, falls⟩
        · exact .inl ⟨.var span ((index : Int) + delta).toNat,
            .free span above (by omega) (by omega)⟩
  | abs span declared body bodyHypothesis =>
      have depthBelow := fits.depthBelow
      rw [binderDepth] at depthBelow
      rcases bodyHypothesis fits.body with ⟨movedBody, bodyShifted⟩ |
        ⟨fails, captures⟩
      · exact .inl ⟨_, .abs span declared bodyShifted⟩
      · refine .inr ⟨?_, captures.of_child .body rfl⟩
        rw [shift, next_of_lt_signBit (by omega), fails]
        rfl
  | app span function argument functionHypothesis argumentHypothesis =>
      rcases functionHypothesis fits.parts.1 with
        ⟨movedFunction, functionShifted⟩ | ⟨fails, captures⟩
      · rcases argumentHypothesis fits.parts.2 with
          ⟨movedArgument, argumentShifted⟩ | ⟨fails, captures⟩
        · exact .inl ⟨_, .app span functionShifted argumentShifted⟩
        · refine .inr ⟨?_, captures.of_child .argument rfl⟩
          rw [shift, fails]
          cases function.shift delta cutoff <;> rfl
      · refine .inr ⟨?_, captures.of_child .function rfl⟩
        rw [shift, fails]

theorem Shifted.shift_eq_of_fits
    (shifted : Shifted delta cutoff term moved)
    (fits : ShiftFits term delta cutoff) :
    term.shift delta cutoff = some moved ∧
      moved.shift (-delta) cutoff = some term := by
  have movedBelow := shifted.indicesBelow fits
  have movedDepth : cutoff + moved.binderDepth < Word.signBit := by
    rw [shifted.binderDepth_eq]
    exact fits.depthBelow
  exact ⟨shifted.shift_eq fits.below movedBelow fits.depthBelow,
    shifted.symm.shift_eq movedBelow fits.below movedDepth⟩

theorem shifted_of_shift
    (fits : ShiftFits term delta cutoff)
    (succeeds : term.shift delta cutoff = some moved) :
    Shifted delta cutoff term moved := by
  rcases shifted_or_captures fits with ⟨other, shifted⟩ | ⟨fails, _⟩
  · rw [(shifted.shift_eq_of_fits fits).1, Option.some.injEq] at succeeds
    rwa [succeeds] at shifted
  · rw [fails] at succeeds
    cases succeeds

theorem shift_eq_none_iff
    (fits : ShiftFits term delta cutoff) :
    term.shift delta cutoff = none ↔ Captures delta cutoff term := by
  rcases shifted_or_captures fits with ⟨moved, shifted⟩ | ⟨fails, captures⟩
  · rw [(shifted.shift_eq_of_fits fits).1]
    exact ⟨nofun, fun captures => absurd captures shifted.not_captures⟩
  · exact ⟨fun _ => captures, fun _ => fails⟩

/-- Where neither an index nor a cutoff reaches the sign bit, a shift fails exactly
if an index that points past the cutoff would fall below it.  Otherwise it adds
`delta` to the indices that point past the cutoff, leaves every other node and
label as it is, and is undone by the opposite shift.  A shift upwards never
fails. -/
theorem shift_moves_free
    (term : Term)
    (delta : Int)
    (cutoff : Nat)
    (fits : ShiftFits term delta cutoff) :
    (term.shift delta cutoff = none ↔
      ∃ path span index, term.rootAt? path = some (.var span index) ∧
        cutoff + Branch.binders path ≤ index ∧
        (index : Int) + delta < (cutoff + Branch.binders path : Nat)) ∧
    (∀ moved, term.shift delta cutoff = some moved ->
      (∀ path, moved.rootAt? path =
        (term.rootAt? path).map (Root.mapIndex fun index =>
          if index < cutoff + Branch.binders path then index
          else ((index : Int) + delta).toNat)) ∧
      moved.shift (-delta) cutoff = some term) ∧
    (0 ≤ delta -> ∃ moved, term.shift delta cutoff = some moved ∧
      moved.shift (-delta) cutoff = some term) := by
  refine ⟨shift_eq_none_iff fits, ?succeeds, ?upwards⟩
  case succeeds =>
    intro moved succeeds
    have shifted := shifted_of_shift fits succeeds
    exact ⟨shifted.rootAt?_eq, (shifted.shift_eq_of_fits fits).2⟩
  case upwards =>
    intro upwards
    rcases shifted_or_captures fits with ⟨moved, shifted⟩ |
      ⟨_, path, span, index, found, above, falls⟩
    · exact ⟨moved, shifted.shift_eq_of_fits fits⟩
    · omega

/-- In `λ:5. (0 (λ. (2 4)))` one index points past the two binders and the one
around the term.  It can be lowered by one, and raised again, but not by two. -/
theorem shift_moves_free_lowered :
    let term (free : Nat) := Term.abs ⟨0, 0, 9⟩ (some 5)
      (.app ⟨0, 3, 8⟩ (.var ⟨0, 4, 5⟩ 0)
        (.abs ⟨0, 5, 8⟩ none
          (.app ⟨0, 6, 8⟩ (.var ⟨0, 6, 7⟩ 2) (.var ⟨0, 7, 8⟩ free))))
    ShiftFits (term 4) (-1) 1 ∧ ShiftFits (term 4) (-2) 1 ∧
      (term 4).shift (-1) 1 = some (term 3) ∧
      (term 3).shift 1 1 = some (term 4) ∧
      (term 4).shift (-2) 1 = none := by
  intro term
  have fits : ShiftFits (term 4) (-1) 1 := ⟨by decide, by decide, by decide⟩
  have fitsToo : ShiftFits (term 4) (-2) 1 := ⟨by decide, by decide, by decide⟩
  have lowered : (term 4).shift (-1) 1 = some (term 3) := by decide
  obtain ⟨_, succeeds, _⟩ := shift_moves_free (term 4) (-1) 1 fits
  obtain ⟨fails, _⟩ := shift_moves_free (term 4) (-2) 1 fitsToo
  refine ⟨fits, fitsToo, lowered, (succeeds _ lowered).2, fails.mpr ?_⟩
  exact ⟨[.body, .argument, .body, .argument], ⟨0, 7, 8⟩, 4, rfl, by decide,
    by decide⟩

end Term
end LambdaCalculus
