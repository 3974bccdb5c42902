import LambdaCalculus.Term.Printer

/-!
# Writing terms behind each other

A writer puts everything that it shows behind one text.  It keeps the number of
binders around a term apart from the number that it has gone through, and it
collects the head and the arguments of an application before it writes them.
-/

namespace LambdaCalculus
namespace Term

/-- Goes down an application to its head and collects the arguments on the way,
last argument first. -/
def collect
    (collected : List Term) : Term -> Term × List Term
  | .app _ function argument => collect (collected ++ [argument]) function
  | term => (term, collected)

theorem collect_eq
    (collected : List Term)
    (term : Term) :
    term.collect collected =
      (term.head, collected ++ term.arguments.reverse) := by
  induction term generalizing collected with
  | var span index => simp [collect, head, arguments]
  | abs span declared body => simp [collect, head, arguments]
  | app span function argument functionHypothesis =>
      simp [collect, functionHypothesis, head, arguments]

/-- What is collected from an application is smaller than the application. -/
theorem nodeCount_lt_of_collected
    {span : Span}
    {function argument part : Term}
    (collected : part = ((app span function argument).collect []).1 ∨
      part ∈ ((app span function argument).collect []).2) :
    part.nodeCount < (app span function argument).nodeCount := by
  simp only [collect_eq, head, List.nil_append, List.mem_reverse] at collected
  rcases collected with isHead | isArgument
  · have bounded := nodeCount_head_le function
    rw [isHead, nodeCount_app]
    omega
  · exact nodeCount_lt_of_mem_arguments isArgument

end Term

/-- A writer of terms. -/
structure TermWriter where
  /-- The types that binders declare. -/
  types : TypePool
  /-- The number of binders around the term that is written. -/
  outer : Nat
  /-- The text so far. -/
  out : Text

namespace TermWriter

/-- Puts a text behind the others. -/
def put
    (writer : TermWriter)
    (text : Text) : TermWriter :=
  { writer with out := writer.out ++ text }

/-- Writes an application, with a way to write each of its parts. -/
def spine
    (span : Span)
    (function argument : Term)
    (each : (part : Term) ->
      part.nodeCount < (Term.app span function argument).nodeCount ->
      TermWriter -> TermWriter)
    (writer : TermWriter) : TermWriter :=
  let collected := (Term.app span function argument).collect []
  let behindHead := each collected.1
    (Term.nodeCount_lt_of_collected (Or.inl rfl)) (writer.put "(")
  let behindArguments := collected.2.attach.foldr
    (fun part writer => each part.1
      (Term.nodeCount_lt_of_collected (Or.inr part.2)) (writer.put " "))
    behindHead
  behindArguments.put ")"

/-- Writes the declared type of a binder behind a colon. -/
def declaration
    (writer : TermWriter) : Option TypeId -> TermWriter
  | none => writer
  | some type => (writer.put ":").put (writer.types.text type)

/-- Writes a term with names, behind `depth` binders that the writer has gone
through. -/
def named
    (depth : Nat)
    (writer : TermWriter) : Term -> TermWriter
  | .var _ index =>
      let level := Word.ofNat (writer.outer + depth)
      if index < level then
        writer.put (binderName (level - 1 - index))
      else
        writer.put (Text.decimal index)
  | .abs _ declared body =>
      let behindName := (writer.put "(λ").put
        (binderName (Word.ofNat (writer.outer + depth)))
      let behindDot := (behindName.declaration declared).put "."
      (named (Word.next depth) behindDot body).put ")"
  | .app span function argument =>
      spine span function argument
        (fun part _ writer => named depth writer part) writer
termination_by term => term.nodeCount
decreasing_by
  · exact Nat.lt_succ_self _
  · assumption

/-- Writes a term with indices. -/
def indexed
    (writer : TermWriter) : Term -> TermWriter
  | .var _ index => writer.put (Text.decimal index)
  | .abs _ declared body =>
      let behindSpace := ((writer.put "(λ").declaration declared).put " "
      (indexed behindSpace body).put ")"
  | .app span function argument =>
      spine span function argument
        (fun part _ writer => indexed writer part) writer
termination_by term => term.nodeCount
decreasing_by
  · exact Nat.lt_succ_self _
  · assumption

/-- Writes the declared type of a binder with its structure spelled out. -/
def declarationDebug
    (writer : TermWriter) : Option TypeId -> TermWriter
  | none => writer
  | some type =>
      ((writer.put "type=").put (writer.types.debug type)).put ", "

/-- Writes a term with its structure spelled out. -/
def debug
    (writer : TermWriter) : Term -> TermWriter
  | .var _ index =>
      ((writer.put "Variable(").put (Text.decimal index)).put ")"
  | .abs _ declared body =>
      let behindDeclaration :=
        (writer.put "Abstraction(").declarationDebug declared
      (debug (behindDeclaration.put "body=") body).put ")"
  | .app _ function argument =>
      let behindFunction := debug (writer.put "Application(function=") function
      (debug (behindFunction.put ", argument=") argument).put ")"

/-- Writes a term in the given style. -/
def write
    (style : Style)
    (depth : Nat)
    (writer : TermWriter)
    (term : Term) : TermWriter :=
  match style with
  | .named => named depth writer term
  | .indexed => indexed writer term
  | .debug => debug writer term

/-- The text of a term that a new writer writes. -/
def render
    (types : TypePool)
    (style : Style)
    (outerBinders : Nat)
    (term : Term) : Text :=
  (write style 0 ⟨types, outerBinders, []⟩ term).out

end TermWriter
end LambdaCalculus
