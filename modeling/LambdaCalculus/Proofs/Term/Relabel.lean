import LambdaCalculus.Proofs.Term.Alike
import LambdaCalculus.Term.Printer
import LambdaCalculus.Term.Substitution

/-!
# Relabeled terms

The nodes of a term carry labels: spans, and the numbers of declared types.  A
relabeling changes the labels and leaves the structure and the indices alone.
Everything that is done to terms without looking at labels commutes with every
change of labels.  A relabeling that treats spans and numbers apart also keeps
undeclared types undeclared.  Spans are not printed, so they do not matter for
printing either.
-/

namespace LambdaCalculus

/-- What a node of a term carries besides its part in the structure. -/
structure Label where
  /-- The span that the node was read from. -/
  span : Span
  /-- The declared type of the argument, which only an abstraction has. -/
  declared : Option TypeId
deriving DecidableEq

namespace Term

/-! ## Changes of labels -/

/-- The labels of the nodes of a term. -/
def labels : Term -> List Label
  | .var span _ => [⟨span, none⟩]
  | .abs span declared body => ⟨span, declared⟩ :: body.labels
  | .app span function argument =>
      ⟨span, none⟩ :: (function.labels ++ argument.labels)

/-- The same term with every label changed. -/
def mapLabels
    (change : Label -> Label) : Term -> Term
  | .var span index => .var (change ⟨span, none⟩).span index
  | .abs span declared body =>
      .abs (change ⟨span, declared⟩).span (change ⟨span, declared⟩).declared
        (body.mapLabels change)
  | .app span function argument =>
      .app (change ⟨span, none⟩).span (function.mapLabels change)
        (argument.mapLabels change)

section Changes

variable (change : Label -> Label)

@[simp] theorem mapLabels_var
    (span : Span)
    (index : Nat) :
    (var span index).mapLabels change =
      var (change ⟨span, none⟩).span index :=
  rfl

@[simp] theorem mapLabels_abs
    (span : Span)
    (declared : Option TypeId)
    (body : Term) :
    (abs span declared body).mapLabels change =
      abs (change ⟨span, declared⟩).span (change ⟨span, declared⟩).declared
        (body.mapLabels change) :=
  rfl

@[simp] theorem mapLabels_app
    (span : Span)
    (function argument : Term) :
    (app span function argument).mapLabels change =
      app (change ⟨span, none⟩).span (function.mapLabels change)
        (argument.mapLabels change) :=
  rfl

@[simp] theorem nodeCount_mapLabels
    (term : Term) :
    (term.mapLabels change).nodeCount = term.nodeCount := by
  induction term with
  | var span index => rfl
  | abs span declared body bodyHypothesis =>
      rw [mapLabels_abs, nodeCount_abs, nodeCount_abs, bodyHypothesis]
  | app span function argument functionHypothesis argumentHypothesis =>
      rw [mapLabels_app, nodeCount_app, nodeCount_app, functionHypothesis,
        argumentHypothesis]

theorem mapLabels_substitute
    (body replacement : Term)
    (target : Nat) :
    (body.substitute target replacement).mapLabels change =
      (body.mapLabels change).substitute target
        (replacement.mapLabels change) := by
  induction body generalizing target with
  | var span index =>
      simp only [substitute_var, mapLabels_var]
      split <;> rfl
  | abs span declared body bodyHypothesis =>
      simp only [substitute_abs, mapLabels_abs, bodyHypothesis]
  | app span function argument functionHypothesis argumentHypothesis =>
      simp only [substitute_app, mapLabels_app, functionHypothesis,
        argumentHypothesis]

theorem mapLabels_raise
    (term : Term)
    (amount cutoff : Nat) :
    (term.raise amount cutoff).mapLabels change =
      (term.mapLabels change).raise amount cutoff := by
  induction term generalizing cutoff with
  | var span index => rfl
  | abs span declared body bodyHypothesis =>
      simp only [raise_abs, mapLabels_abs, bodyHypothesis]
  | app span function argument functionHypothesis argumentHypothesis =>
      simp only [raise_app, mapLabels_app, functionHypothesis,
        argumentHypothesis]

theorem mapLabels_instantiateAt
    (body argument : Term)
    (depth : Nat) :
    (body.instantiateAt depth argument).mapLabels change =
      (body.mapLabels change).instantiateAt depth
        (argument.mapLabels change) := by
  induction body generalizing depth with
  | var span index =>
      simp only [instantiateAt_var, mapLabels_var]
      split
      next => rfl
      next =>
          split
          next => exact mapLabels_raise change argument depth 0
          next => rfl
  | abs span declared body bodyHypothesis =>
      simp only [instantiateAt_abs, mapLabels_abs, bodyHypothesis]
  | app span function operand functionHypothesis operandHypothesis =>
      simp only [instantiateAt_app, mapLabels_app, functionHypothesis,
        operandHypothesis]

/-- A term carries accepted labels only if a change that moves exactly the spans
of the others does not change it. -/
theorem labels_subset_iff_mapLabels
    {accepted : List Label}
    (moves : ∀ label, (change label).span = label.span ↔ label ∈ accepted)
    (keeps : ∀ label, (change label).declared = label.declared)
    (term : Term) :
    term.labels ⊆ accepted ↔ term.mapLabels change = term := by
  induction term with
  | var span index => simp [labels, moves ⟨span, none⟩]
  | abs span declared body bodyHypothesis =>
      rw [labels, List.cons_subset, bodyHypothesis, mapLabels_abs,
        keeps ⟨span, declared⟩, abs.injEq, moves ⟨span, declared⟩]
      simp
  | app span function argument functionHypothesis argumentHypothesis =>
      rw [labels, List.cons_subset, List.append_subset, functionHypothesis,
        argumentHypothesis, mapLabels_app, app.injEq, moves ⟨span, none⟩]

end Changes

/-- The declared types of a term are those of its labels. -/
theorem declaresOnly_iff_labels
    {accepted : TypeId -> Bool}
    (term : Term) :
    term.declaresOnly accepted = true ↔
      ∀ label ∈ term.labels, label.declared.all accepted = true := by
  induction term with
  | var span index => simp [declaresOnly, labels]
  | abs span declared body bodyHypothesis =>
      rw [declaresOnly, Bool.and_eq_true, bodyHypothesis, labels,
        List.forall_mem_cons]
  | app span function argument functionHypothesis argumentHypothesis =>
      rw [declaresOnly, Bool.and_eq_true, functionHypothesis,
        argumentHypothesis, labels, List.forall_mem_cons,
        List.forall_mem_append]
      simp

/-! ## Relabelings -/

/-- The same term with other spans and other numbers of declared types. -/
def relabel
    (spans : Span -> Span)
    (numbers : TypeId -> TypeId) : Term -> Term
  | .var span index => .var (spans span) index
  | .abs span declared body =>
      .abs (spans span) (declared.map numbers) (body.relabel spans numbers)
  | .app span function argument =>
      .app (spans span) (function.relabel spans numbers)
        (argument.relabel spans numbers)

variable (spans : Span -> Span) (numbers : TypeId -> TypeId)

@[simp] theorem relabel_var
    (span : Span)
    (index : Nat) :
    (var span index).relabel spans numbers = var (spans span) index :=
  rfl

@[simp] theorem relabel_abs
    (span : Span)
    (declared : Option TypeId)
    (body : Term) :
    (abs span declared body).relabel spans numbers =
      abs (spans span) (declared.map numbers) (body.relabel spans numbers) :=
  rfl

@[simp] theorem relabel_app
    (span : Span)
    (function argument : Term) :
    (app span function argument).relabel spans numbers =
      app (spans span) (function.relabel spans numbers)
        (argument.relabel spans numbers) :=
  rfl

/-- Forgetting the spans is a relabeling. -/
theorem withoutSpans_eq_relabel
    (term : Term) :
    term.withoutSpans = term.relabel (fun _ => .nowhere) id := by
  induction term with
  | var span index => rfl
  | abs span declared body bodyHypothesis =>
      rw [withoutSpans_abs, relabel_abs, bodyHypothesis, Option.map_id_apply]
  | app span function argument functionHypothesis argumentHypothesis =>
      rw [withoutSpans_app, relabel_app, functionHypothesis,
        argumentHypothesis]

/-- A relabeling changes spans and numbers apart from each other. -/
theorem relabel_eq_mapLabels
    (term : Term) :
    term.relabel spans numbers =
      term.mapLabels fun label =>
        ⟨spans label.span, label.declared.map numbers⟩ := by
  induction term with
  | var span index => rfl
  | abs span declared body bodyHypothesis =>
      rw [relabel_abs, mapLabels_abs, bodyHypothesis]
  | app span function argument functionHypothesis argumentHypothesis =>
      rw [relabel_app, mapLabels_app, functionHypothesis, argumentHypothesis]

@[simp] theorem annotated_relabel
    (term : Term) :
    (term.relabel spans numbers).annotated = term.annotated := by
  induction term with
  | var span index => rfl
  | abs span declared body bodyHypothesis =>
      rw [relabel_abs, annotated, annotated, bodyHypothesis, Option.isSome_map]
  | app span function argument functionHypothesis argumentHypothesis =>
      rw [relabel_app, annotated, annotated, functionHypothesis,
        argumentHypothesis]

/-! ## Printing -/

theorem named_relabel
    (types : TypePool)
    (asFunction : Bool)
    (level : Nat)
    (term : Term) :
    (term.relabel spans id).named types asFunction level =
      term.named types asFunction level := by
  induction term generalizing asFunction level with
  | var span index => rfl
  | abs span declared body bodyHypothesis =>
      rw [relabel_abs, named, named, bodyHypothesis, Option.map_id_apply]
  | app span function argument functionHypothesis argumentHypothesis =>
      rw [relabel_app, named, named, functionHypothesis, argumentHypothesis]

theorem indexed_relabel
    (types : TypePool)
    (asFunction : Bool)
    (term : Term) :
    (term.relabel spans id).indexed types asFunction =
      term.indexed types asFunction := by
  induction term generalizing asFunction with
  | var span index => rfl
  | abs span declared body bodyHypothesis =>
      rw [relabel_abs, indexed, indexed, bodyHypothesis, Option.map_id_apply]
  | app span function argument functionHypothesis argumentHypothesis =>
      rw [relabel_app, indexed, indexed, functionHypothesis,
        argumentHypothesis]

theorem debug_relabel
    (types : TypePool)
    (term : Term) :
    (term.relabel spans id).debug types = term.debug types := by
  induction term with
  | var span index => rfl
  | abs span declared body bodyHypothesis =>
      rw [relabel_abs, debug, debug, bodyHypothesis, Option.map_id_apply]
  | app span function argument functionHypothesis argumentHypothesis =>
      rw [relabel_app, debug, debug, functionHypothesis, argumentHypothesis]

/-- No style shows where a term stands. -/
theorem render_relabel
    (types : TypePool)
    (style : Style)
    (outerBinders : Nat)
    (term : Term) :
    (term.relabel spans id).render types style outerBinders =
      term.render types style outerBinders := by
  cases style with
  | named => exact named_relabel spans types false outerBinders term
  | indexed => exact indexed_relabel spans types false term
  | debug => exact debug_relabel spans types term

end Term
end LambdaCalculus
