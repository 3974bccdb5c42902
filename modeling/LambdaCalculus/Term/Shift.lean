import LambdaCalculus.Term.Basic
import LambdaCalculus.Word

/-!
# Shifting in 64-bit words

Index arithmetic on words: indices and cutoffs wrap around, and a shift reads
them as signed numbers.  A shift fails when it would move a free index below
its cutoff, where another binder would capture it.
-/

namespace LambdaCalculus
namespace Term

/-- Verbatim substitution in which the target index wraps around. -/
def substituteWrapping :
    Term -> (target : Nat) -> (replacement : Term) -> Term
  | .var span index, target, replacement =>
      if index = target then replacement else .var span index
  | .abs span declared body, target, replacement =>
      .abs span declared
        (body.substituteWrapping (Word.next target) replacement)
  | .app span function argument, target, replacement =>
      .app span
        (function.substituteWrapping target replacement)
        (argument.substituteWrapping target replacement)

/-- The index that a free index becomes, unless it would be captured. -/
def shiftIndex
    (delta : Int)
    (cutoff index : Nat) : Option Nat :=
  if index < cutoff then
    some index
  else
    let moved := Word.signed index + delta
    if moved < Word.signed cutoff then
      none
    else
      some (Word.ofSigned moved)

/-- Adds `delta` to every index that points past `cutoff` binders; `none` when
one of them would be captured. -/
def shift : Term -> (delta : Int) -> (cutoff : Nat) -> Option Term
  | .var span index, delta, cutoff =>
      (shiftIndex delta cutoff index).map (Term.var span)
  | .abs span declared body, delta, cutoff =>
      (body.shift delta (Word.next cutoff)).map (Term.abs span declared)
  | .app span function argument, delta, cutoff =>
      match function.shift delta cutoff, argument.shift delta cutoff with
      | some function, some argument => some (.app span function argument)
      | _, _ => none

/-- Puts `replacement`, shifted over the `depth` binders passed so far, in
place of the index `target`. -/
def substituteShiftingUnder :
    Term -> (depth target : Nat) -> (replacement : Term) -> Option Term
  | .var span index, depth, target, replacement =>
      if index = target then
        if depth = 0 then
          some replacement
        else
          replacement.shift (Word.signed depth) 0
      else
        some (.var span index)
  | .abs span declared body, depth, target, replacement =>
      (body.substituteShiftingUnder (Word.next depth) (Word.next target)
        replacement).map (Term.abs span declared)
  | .app span function argument, depth, target, replacement =>
      match function.substituteShiftingUnder depth target replacement,
        argument.substituteShiftingUnder depth target replacement with
      | some function, some argument => some (.app span function argument)
      | _, _ => none

/-- Capture-avoiding substitution that leaves the other indices alone. -/
def substituteShifting
    (term : Term)
    (target : Nat)
    (replacement : Term) : Option Term :=
  term.substituteShiftingUnder 0 target replacement

/-- The contraction of an abstraction with this body: the argument is raised
by one, put in place of index zero, and the result is lowered by one. -/
def contract
    (body argument : Term) : Option Term :=
  (argument.shift 1 0).bind fun lifted =>
    (body.substituteShifting 0 lifted).bind fun replaced =>
      replaced.shift (-1) 0

end Term
end LambdaCalculus
