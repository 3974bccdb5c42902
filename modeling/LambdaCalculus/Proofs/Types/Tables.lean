import LambdaCalculus.Types.Tables
import Mathlib.Data.List.Basic

/-!
# The two tables of a pool

Two tables list the types of a pool if their entries, with the names put in, are
the error type and then the types of the pool in order.  Numbering a type in the
tables and in the pool gives the same number, and the tables list the types of the
pool again; what is looked up in the tables is what the pool says.
-/

namespace LambdaCalculus
namespace TypeTables

/-- How the type of an entry is formed. -/
def former?
    (names : List Text) : TypeEntry -> Option TypeFormer
  | .error => none
  | .base place => some (.base (names.getD place []))
  | .function parameter result => some (.function parameter result)

/-- The tables list the types of the pool. -/
structure Lists
    (tables : TypeTables)
    (types : TypePool) : Prop where
  /-- The error type and then the types of the pool. -/
  entries : tables.types.map (former? tables.names) =
    none :: types.formers.map some
  /-- Every base type has a name. -/
  named : ∀ place, .base place ∈ tables.types -> place < tables.names.length

theorem start_lists : start.Lists .empty where
  entries := rfl
  named := by
    intro place member
    cases List.mem_singleton.mp member

namespace Lists

variable {tables : TypeTables} {types : TypePool}

theorem length_eq
    (lists : tables.Lists types) :
    tables.types.length = types.count := by
  have lengths := congrArg List.length lists.entries
  simpa [TypePool.count] using lengths

/-- The entry of a number is formed as the pool says. -/
theorem former?_eq
    (lists : tables.Lists types)
    (type : TypeId) :
    tables.types[type]?.bind (former? tables.names) = types.former? type := by
  have entry := congrArg (·[type]?) lists.entries
  simp only [List.getElem?_map] at entry
  cases type with
  | zero =>
      rw [List.getElem?_cons_zero, Option.map_eq_some_iff] at entry
      obtain ⟨first, isFirst, isNone⟩ := entry
      rw [isFirst, Option.bind_some, isNone, TypePool.former?_zero]
  | succ position =>
      rw [List.getElem?_cons_succ, List.getElem?_map] at entry
      rw [TypePool.former?_succ]
      generalize tables.types[position + 1]? = found at entry ⊢
      generalize types.formers[position]? = former at entry ⊢
      cases found <;> cases former <;> simp_all

/-- Going through the table finds the place of a former in the pool, behind the
error type. -/
theorem findIdx?_eq
    (lists : tables.Lists types)
    {former : TypeFormer}
    {search : TypeEntry -> Bool}
    (finds : ∀ entry ∈ tables.types,
      search entry = (former? tables.names entry == some former)) :
    tables.types.findIdx? search =
      (types.formers.idxOf? former).map (· + 1) :=
  calc tables.types.findIdx? search
    _ = (tables.types.map search).findIdx? id := by
      rw [List.findIdx?_map]
      rfl
    _ = (tables.types.map fun entry =>
          former? tables.names entry == some former).findIdx? id := by
      rw [List.map_congr_left finds]
    _ = (tables.types.map (former? tables.names)).findIdx?
          (· == some former) := by
      rw [List.findIdx?_map, List.findIdx?_map]
      rfl
    _ = (none :: types.formers.map some).findIdx? (· == some former) := by
      rw [lists.entries]
    _ = (types.formers.idxOf? former).map (· + 1) := by
      rw [List.findIdx?_cons, List.findIdx?_map]
      rfl

/-- An entry is the base type of a name exactly if it is formed so. -/
theorem isBase_eq
    (lists : tables.Lists types)
    (name : Text)
    (entry : TypeEntry)
    (member : entry ∈ tables.types) :
    tables.isBase name entry =
      (former? tables.names entry == some (.base name)) := by
  cases entry with
  | error => rfl
  | function parameter result => rfl
  | base place =>
      have inside := lists.named place member
      rw [isBase, former?, List.getElem?_eq_getElem inside,
        List.getD_eq_getElem?_getD, List.getElem?_eq_getElem inside,
        Option.getD_some, Bool.eq_iff_iff]
      simp

/-- An entry is the function type of two parts exactly if it is formed so. -/
theorem isFunction_eq
    (parameter result : TypeId)
    (names : List Text)
    (entry : TypeEntry) :
    (entry == .function parameter result) =
      (former? names entry == some (.function parameter result)) := by
  rw [Bool.eq_iff_iff]
  cases entry <;> simp [former?]

/-! ## Numbering -/

/-- A type that is not found is put behind the others in the tables and in the
pool. -/
theorem append
    (lists : tables.Lists types)
    {entry : TypeEntry}
    {former : TypeFormer}
    (added : List Text)
    (isFormed : former? (tables.names ++ added) entry = some former)
    (named : ∀ place, entry = .base place ->
      place < (tables.names ++ added).length) :
    Lists ⟨tables.types ++ [entry], tables.names ++ added⟩
      ⟨types.formers ++ [former]⟩ where
  entries := by
    have same : tables.types.map (former? (tables.names ++ added)) =
        tables.types.map (former? tables.names) := by
      apply List.map_congr_left
      intro old member
      cases old with
      | error => rfl
      | function parameter result => rfl
      | base place =>
          have inside := lists.named place member
          rw [former?, former?, List.getD_eq_getElem?_getD,
            List.getD_eq_getElem?_getD, List.getElem?_append_left inside]
    simp only [List.map_append, same, lists.entries, List.map_singleton,
      isFormed, List.cons_append]
  named := by
    intro place member
    rcases List.mem_append.mp member with old | new
    · have inside := lists.named place old
      rw [List.length_append]
      omega
    · exact named place (List.mem_singleton.mp new).symm

/-- Numbering a type in the tables is numbering it in the pool. -/
theorem intern
    (lists : tables.Lists types)
    (former : TypeFormer) :
    (tables.intern former).1 = (types.intern former).1 ∧
      (tables.intern former).2.Lists (types.intern former).2 := by
  unfold TypeTables.intern TypePool.intern
  cases former with
  | base name =>
      simp only [TypeTables.base, lists.findIdx?_eq (lists.isBase_eq name)]
      cases types.formers.idxOf? (.base name) with
      | some position => exact ⟨rfl, lists⟩
      | none =>
          refine ⟨lists.length_eq, lists.append [name] ?_ ?_⟩
          · simp [former?]
          · rintro place ⟨⟩
            simp
  | function parameter result =>
      simp only [TypeTables.function, lists.findIdx?_eq fun entry _ =>
        isFunction_eq parameter result tables.names entry]
      cases types.formers.idxOf? (.function parameter result) with
      | some position => exact ⟨rfl, lists⟩
      | none =>
          have noName : ∀ place,
              TypeEntry.function parameter result = .base place ->
              place < (tables.names ++ []).length := by
            intro place isBase
            cases isBase
          have appended := lists.append [] rfl noName
          rw [List.append_nil] at appended
          exact ⟨lists.length_eq, appended⟩

/-- So it is for any number of types, one after the other. -/
theorem foldl_intern
    (lists : tables.Lists types)
    (formers : List TypeFormer) :
    (formers.foldl (fun tables former => (tables.intern former).2) tables).Lists
      (formers.foldl (fun types former => (types.intern former).2) types) := by
  induction formers generalizing tables types with
  | nil => exact lists
  | cons former rest inductionHypothesis =>
      exact inductionHypothesis (lists.intern former).2

/-! ## Looking up -/

theorem parameter_eq
    (lists : tables.Lists types)
    (type : TypeId) :
    tables.parameter type = types.parameter type := by
  rw [TypeTables.parameter, TypePool.parameter, TypePool.function?,
    ← lists.former?_eq]
  cases tables.types[type]? with
  | none => rfl
  | some entry => cases entry <;> rfl

theorem result_eq
    (lists : tables.Lists types)
    (type : TypeId) :
    tables.result type = types.result type := by
  rw [TypeTables.result, TypePool.result, TypePool.function?,
    ← lists.former?_eq]
  cases tables.types[type]? with
  | none => rfl
  | some entry => cases entry <;> rfl

theorem baseName_eq
    (lists : tables.Lists types)
    (type : TypeId) :
    tables.baseName type = types.baseName type := by
  rw [TypeTables.baseName, TypePool.baseName, ← lists.former?_eq]
  cases tables.types[type]? with
  | none => rfl
  | some entry => cases entry <;> rfl

end Lists

/-- Whatever types are numbered one after the other in new tables, they get the
numbers that they get in a new pool, and the look-ups agree. -/
theorem start_numbers
    (formers : List TypeFormer)
    (former : TypeFormer)
    (type : TypeId) :
    let tables := formers.foldl (fun tables former => (tables.intern former).2)
      start
    let types := formers.foldl (fun types former => (types.intern former).2)
      TypePool.empty
    (tables.intern former).1 = (types.intern former).1 ∧
      tables.types.length = types.count ∧
      tables.parameter type = types.parameter type ∧
      tables.result type = types.result type ∧
      tables.baseName type = types.baseName type := by
  intro tables types
  have lists : tables.Lists types := start_lists.foldl_intern formers
  exact ⟨(lists.intern former).1, lists.length_eq, lists.parameter_eq type,
    lists.result_eq type, lists.baseName_eq type⟩

end TypeTables
end LambdaCalculus
