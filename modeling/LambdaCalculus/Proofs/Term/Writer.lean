import LambdaCalculus.Term.Writer
import Mathlib.Data.List.Basic

/-!
# What a writer writes

A writer leaves what it has written and puts the printed term behind it.  Where the
writer keeps the binders around the term apart from those that it has gone through,
the printed term knows their sum only; where the writer collects the parts of an
application, the printed term has them in place.
-/

namespace LambdaCalculus

/-! ## Spines in print -/

namespace Term

/-- The arguments of an application, each behind a space. -/
def argumentsText
    (shown : Term -> Text)
    (arguments : List Term) : Text :=
  arguments.flatMap fun argument => " " ++ shown argument

/-- An application is shown in parentheses unless it stands as a function, and all
other terms are shown in the same way there as anywhere else. -/
structure ShowsSpines (shown : Bool -> Term -> Text) : Prop where
  var : ∀ span index,
    shown true (.var span index) = shown false (.var span index)
  abs : ∀ span declared body,
    shown true (.abs span declared body) = shown false (.abs span declared body)
  app : ∀ asFunction span function argument,
    shown asFunction (.app span function argument) =
      enclose asFunction (shown true function ++ " " ++ shown false argument)

namespace ShowsSpines

variable {shown : Bool -> Term -> Text}

/-- A term that stands as a function shows its head and its arguments. -/
theorem asFunction
    (shows : ShowsSpines shown)
    (term : Term) :
    shown true term =
      shown false term.head ++ argumentsText (shown false) term.arguments := by
  induction term with
  | var span index =>
      rw [shows.var]
      exact (List.append_nil _).symm
  | abs span declared body =>
      rw [shows.abs]
      exact (List.append_nil _).symm
  | app span function argument functionHypothesis =>
      rw [shows.app, functionHypothesis]
      simp [enclose, argumentsText, Term.head, arguments]

/-- An application shows them in one pair of parentheses. -/
theorem enclosed
    (shows : ShowsSpines shown)
    (span : Span)
    (function argument : Term) :
    shown false (.app span function argument) =
      "(" ++ (shown false function.head ++ argumentsText (shown false)
        (Term.app span function argument).arguments) ++ ")" := by
  have shownAsFunction := shows.asFunction (.app span function argument)
  rw [shows.app] at shownAsFunction ⊢
  simp only [enclose, if_true] at shownAsFunction
  simp only [enclose, shownAsFunction, Term.head, Bool.false_eq_true, if_false]

end ShowsSpines

theorem named_showsSpines
    (types : TypePool)
    (level : Nat) :
    ShowsSpines fun asFunction => named types asFunction level where
  var _ _ := rfl
  abs _ _ _ := rfl
  app _ _ _ _ := rfl

theorem indexed_showsSpines
    (types : TypePool) :
    ShowsSpines (indexed types) where
  var _ _ := rfl
  abs _ _ _ := rfl
  app _ _ _ _ := rfl

end Term

namespace TermWriter

variable (writer : TermWriter)

@[simp] theorem put_types
    (text : Text) :
    (writer.put text).types = writer.types :=
  rfl

@[simp] theorem put_outer
    (text : Text) :
    (writer.put text).outer = writer.outer :=
  rfl

@[simp] theorem put_put
    (first second : Text) :
    (writer.put first).put second = writer.put (first ++ second) := by
  simp [put]

/-! ## The parts of an application -/

/-- If each part is put behind what has been written, an application is put there
as a whole. -/
theorem spine_eq
    {shown : Bool -> Term -> Text}
    (shows : Term.ShowsSpines shown)
    {span : Span}
    {function argument : Term}
    {each : (part : Term) ->
      part.nodeCount < (Term.app span function argument).nodeCount ->
      TermWriter -> TermWriter}
    (writes : ∀ part smaller text,
      each part smaller (writer.put text) =
        writer.put (text ++ shown false part)) :
    spine span function argument each writer =
      writer.put (shown false (.app span function argument)) := by
  have writesArgument : ∀ (part : { part //
        part ∈ ((Term.app span function argument).collect []).2 }) text,
      each part.1 (Term.nodeCount_lt_of_collected (Or.inr part.2))
          ((writer.put text).put " ") =
        writer.put (text ++ (" " ++ shown false part.1)) := by
    intro part text
    rw [put_put, writes, List.append_assoc]
  have written : ∀ text,
      ((Term.app span function argument).collect []).2.foldr
          (fun part text => text ++ (" " ++ shown false part)) text =
        text ++ Term.argumentsText (shown false)
          (Term.app span function argument).arguments := by
    intro text
    rw [Term.collect_eq, List.nil_append, List.foldr_reverse,
      List.foldl_append_eq_append, Term.argumentsText, List.flatMap_def]
  rw [spine, writes, List.foldr_hom writer.put writesArgument,
    List.foldr_attach (f := fun part text => text ++ (" " ++ shown false part)),
    written, put_put, shows.enclosed, Term.collect_eq]
  simp only [Term.head, List.append_assoc]

/-! ## The three styles -/

theorem declaration_eq
    (declared : Option TypeId) :
    writer.declaration declared =
      writer.put (Term.declarationText writer.types declared) := by
  cases declared with
  | none => simp [declaration, Term.declarationText, put]
  | some type => simp [declaration, Term.declarationText]

theorem declarationDebug_eq
    (declared : Option TypeId) :
    writer.declarationDebug declared =
      writer.put (Term.declarationDebug writer.types declared) := by
  cases declared with
  | none => simp [declarationDebug, Term.declarationDebug, put]
  | some type => simp [declarationDebug, Term.declarationDebug]

/-- A writer puts the term with names behind what it has written; the binders
around the term and those gone through count together. -/
theorem named_eq
    (depth : Nat)
    (term : Term) :
    named depth writer term =
      writer.put (term.named writer.types false
        (Word.ofNat (writer.outer + depth))) := by
  fun_induction named depth writer term with
  | case1 depth writer span index level bound =>
      rw [Term.named, Term.variableName, if_pos bound]
  | case2 depth writer span index level free =>
      rw [Term.named, Term.variableName, if_neg free]
  | case3 depth writer span declared body behindName behindDot bodyHypothesis =>
      have levels : Word.ofNat (writer.outer + Word.next depth) =
          Word.next (Word.ofNat (writer.outer + depth)) := by
        simp only [Word.next, Word.ofNat, Word.modulus]
        omega
      rw [bodyHypothesis]
      simp [behindDot, behindName, declaration_eq, levels, Term.named]
  | case4 depth writer span function argument partHypothesis =>
      apply spine_eq writer (Term.named_showsSpines writer.types _)
      intro part smaller text
      rw [partHypothesis part smaller, put_put, put_types, put_outer]

/-- A writer puts the term with indices behind what it has written. -/
theorem indexed_eq
    (term : Term) :
    indexed writer term = writer.put (term.indexed writer.types false) := by
  fun_induction indexed writer term with
  | case1 writer span index => rw [Term.indexed]
  | case2 writer span declared body behindSpace bodyHypothesis =>
      rw [bodyHypothesis]
      simp [behindSpace, declaration_eq, Term.indexed]
  | case3 writer span function argument partHypothesis =>
      apply spine_eq writer (Term.indexed_showsSpines writer.types)
      intro part smaller text
      rw [partHypothesis part smaller, put_put, put_types]

/-- A writer puts the spelled out term behind what it has written. -/
theorem debug_eq
    (term : Term) :
    debug writer term = writer.put (term.debug writer.types) := by
  induction term generalizing writer with
  | var span index => simp [debug, Term.debug]
  | abs span declared body bodyHypothesis =>
      simp [debug, Term.debug, declarationDebug_eq, bodyHypothesis]
  | app span function argument functionHypothesis argumentHypothesis =>
      simp [debug, Term.debug, functionHypothesis, argumentHypothesis]

/-- What a new writer writes of a term is the printed term. -/
theorem render_eq
    (types : TypePool)
    (style : Style)
    {outerBinders : Nat}
    (isWord : outerBinders < Word.modulus)
    (term : Term) :
    render types style outerBinders term =
      term.render types style outerBinders := by
  cases style with
  | named =>
      rw [render, write, named_eq, Nat.add_zero, Word.ofNat_of_lt isWord]
      rfl
  | indexed =>
      rw [render, write, indexed_eq]
      rfl
  | debug =>
      rw [render, write, debug_eq]
      rfl

end TermWriter
end LambdaCalculus
