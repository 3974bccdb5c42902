import LambdaCalculus.Proofs.Parser.FirstError
import LambdaCalculus.Proofs.Token.Lossless
import LambdaCalculus.Proofs.Token.Validity

/-!
# A source that is not a program is diagnosed

A source that is not valid has one fatal diagnostic.  Any other source has a
diagnostic for each error token and, if the parser stops at something else, one
for that.  The parser stops silently at an error token only, so a source without
diagnostics has been parsed; and a term has no error token in it, so a source
that has been parsed has no diagnostics.
-/

namespace LambdaCalculus

/-! ## Spans inside a source -/

/-- The span lies in the source with the given number. -/
structure Span.LiesIn
    (span : Span)
    (file : Nat)
    (source : Text) : Prop where
  /-- It is a span of this source. -/
  isIn : span.file = file
  /-- It does not end before it starts. -/
  ordered : span.lo ≤ span.hi
  /-- It ends where the source ends, or before. -/
  inside : span.hi ≤ source.length

/-- The least span over two spans of a source is one of the source. -/
theorem Span.LiesIn.join
    {left right : Span}
    {file : Nat}
    (leftLies : left.LiesIn file source)
    (rightLies : right.LiesIn file source) :
    (left.join right).LiesIn file source where
  isIn := leftLies.isIn
  ordered := by
    have leftOrdered := leftLies.ordered
    have rightOrdered := rightLies.ordered
    simp only [Span.join_lo, Span.join_hi]
    omega
  inside := Nat.max_le.mpr ⟨leftLies.inside, rightLies.inside⟩

theorem Token.Stands.liesIn
    {token : Token}
    (stands : Stands file 0 token source) :
    token.span.LiesIn file source where
  isIn := stands.slice_eq.1
  ordered := Nat.le_of_lt stands.nonempty
  inside := by
    have bounds := stands.bounds
    omega

/-! ## Lexing -/

theorem unknownCharacters_eq_nil_iff
    (tokens : List Token) :
    unknownCharacters tokens = [] ↔ Grammar.NoErrors tokens := by
  simp [unknownCharacters, Grammar.NoErrors]

theorem Diagnostics.hasCode_append
    (earlier later : Diagnostics)
    (code : Diagnostic.Code) :
    (earlier ++ later).hasCode code =
      (earlier.hasCode code || later.hasCode code) := by
  simp [hasCode, firstWith?, List.find?_append, Option.isSome_or]

/-! ## Parsing -/

/-- The parser of programs stops for a reason that is seen in front of it, and
not for lack of fuel. -/
theorem Parser.exists_at_of_program_stopped
    (stopped : program stream tokens types = .stopped reason later) :
    reason ≠ .outOfFuel ∧
      ∃ consumed rest, tokens = consumed ++ rest ∧
        reason.At stream.finish consumed rest := by
  constructor
  · rintro rfl
    cases program_completable stopped
  · cases predictive_program stream tokens types with
    | done term consumed rest between split reads =>
        have read := reads rest (.refl rest)
        rw [← split, stopped] at read
        cases read
    | stopped other consumed rest between split isAt stops endsOpen =>
        have stoppedThere := stops rest rfl
        rw [← split, stopped] at stoppedThere
        cases stoppedThere
        exact ⟨consumed, rest, split, isAt⟩

/-- What a stop reports lies where the tokens and the end of input lie. -/
theorem Stop.At.liesIn
    {consumed rest : List Token}
    (isAt : Stop.At finish consumed rest reason)
    (tokensLie : ∀ token ∈ consumed ++ rest, token.span.LiesIn file source)
    (finishLies : finish.LiesIn file source) :
    ∀ diagnostic ∈ reason.diagnostics,
      diagnostic.span.LiesIn file source := by
  intro diagnostic member
  cases isAt with
  | lexical _ _ => cases member
  | outOfFuel => cases member
  | @fault error isAt =>
      rw [Stop.diagnostics, List.mem_singleton] at member
      rw [member]
      change error.span.LiesIn file source
      cases rest with
      | nil =>
          obtain ⟨expected, rfl⟩ := isAt
          exact finishLies
      | cons token rest =>
          have tokenLies := tokensLie token
            (List.mem_append_right consumed List.mem_cons_self)
          rcases isAt.2 with here | ⟨left, passed, joined⟩
          · rwa [here]
          · rw [joined]
            exact (tokensLie left
              (List.mem_append_left _ passed)).join tokenLies

/-- A stop that reports nothing is at an error token. -/
theorem Stop.At.exists_error
    {consumed rest : List Token}
    (isAt : Stop.At finish consumed rest reason)
    (fuelRemains : reason ≠ .outOfFuel)
    (silent : reason.diagnostics = []) :
    ∃ token ∈ rest, token.kind = .error := by
  cases isAt with
  | lexical isNext isError => exact ⟨_, List.mem_of_head? isNext, isError⟩
  | fault _ => cases silent
  | outOfFuel => exact (fuelRemains rfl).elim

/-- What is said about a source that is not a program: the source is not valid,
or it has unknown characters, or the parser has found a fault. -/
def Diagnostics.Blame
    (diagnostics : Diagnostics)
    (file : Nat)
    (source : Text) : Prop :=
  (¬source.IsUtf8 ∧ ∃ diagnostic, diagnostics = [diagnostic] ∧
    diagnostic.severity = .fatal ∧ diagnostic.code = .invalidUtf8) ∨
  (source.IsUtf8 ∧ ∃ fault : Option ParseError,
    diagnostics = unknownCharacters (lex file source).stream.tokens ++
      fault.toList.map ParseError.diagnostic)

/-- A source is parsed without diagnostics, or it has diagnostics that are in the
source and say why it is not a program. -/
inductive ParseResult.Diagnosed
    (file : Nat)
    (source : Text) : ParseResult -> Prop
  | parsed
      (term : Term)
      (types : TypePool) :
      Diagnosed file source ⟨some term, types, []⟩
  | rejected
      {diagnostics : Diagnostics}
      (types : TypePool)
      (nonempty : diagnostics ≠ [])
      (blame : diagnostics.Blame file source)
      (located : ∀ diagnostic ∈ diagnostics,
        diagnostic.span.LiesIn file source) :
      Diagnosed file source ⟨none, types, diagnostics⟩

namespace ParseResult.Diagnosed

theorem isSome_iff
    {file : Nat}
    {result : ParseResult}
    (diagnosed : result.Diagnosed file source) :
    result.term.isSome = true ↔ result.diagnostics = [] := by
  cases diagnosed with
  | parsed term types => simp
  | rejected types nonempty blame located => simp [nonempty]

theorem blame
    {file : Nat}
    {result : ParseResult}
    (diagnosed : result.Diagnosed file source)
    (failed : result.term = none) :
    result.diagnostics.Blame file source := by
  cases diagnosed with
  | parsed term types => cases failed
  | rejected types nonempty blame located => exact blame

theorem located
    {file : Nat}
    {result : ParseResult}
    (diagnosed : result.Diagnosed file source) :
    ∀ diagnostic ∈ result.diagnostics,
      diagnostic.span.LiesIn file source := by
  cases diagnosed with
  | parsed term types => nofun
  | rejected types nonempty blame located => exact located

theorem nonempty
    {file : Nat}
    {result : ParseResult}
    (diagnosed : result.Diagnosed file source)
    (failed : result.term = none) :
    result.diagnostics ≠ [] := by
  rw [ne_eq, ← diagnosed.isSome_iff, failed]
  nofun

end ParseResult.Diagnosed

/-- A source that is not valid has one diagnostic, and it is fatal. -/
theorem parse_diagnosed_of_invalid
    (file : Nat)
    (types : TypePool)
    (known : Diagnostics)
    (invalid : Text.firstInvalid? source = some offset) :
    (parse file source types known).Diagnosed file source := by
  have parsed : parse file source types known =
      ⟨none, types, [invalidUtf8 file source offset]⟩ := by
    rw [parse, lex_of_invalid file invalid, Lexed.parse, if_pos]
    rw [Diagnostics.hasCode_append, Bool.or_eq_true]
    exact Or.inr rfl
  have inside := (Text.validUpTo_of_firstInvalid? invalid).inside
  rw [parsed]
  apply ParseResult.Diagnosed.rejected types (List.cons_ne_nil _ _)
  · refine Or.inl ⟨?_, _, rfl, rfl, rfl⟩
    rw [← Text.firstInvalid?_eq_none_iff, invalid]
    exact Option.some_ne_none offset
  · intro diagnostic member
    rw [List.mem_singleton.mp member]
    constructor
    · rfl
    · change offset ≤ min (offset + 1) source.length
      omega
    · exact Nat.min_le_right _ _

/-- A valid source is parsed, or its error tokens and the fault of the parser are
reported.  A stop that is not reported is at an error token. -/
theorem parse_diagnosed_of_valid
    (file : Nat)
    (types : TypePool)
    (trusted : Diagnostics.hasCode known .invalidUtf8 = false)
    (valid : Text.firstInvalid? source = none) :
    (parse file source types known).Diagnosed file source := by
  have isUtf8 := (Text.firstInvalid?_eq_none_iff source).mp valid
  have tokensLie : ∀ token ∈ Token.scan file 0 source,
      token.span.LiesIn file source := fun token member =>
    ((Token.scans_scan file 0 isUtf8).stands member).liesIn
  have finishLies : Span.LiesIn ⟨file, source.length, source.length⟩ file
      source := ⟨rfl, Nat.le_refl _, Nat.le_refl _⟩
  rw [parse, lex_of_valid file valid, Lexed.parse_of_trusted]
  · split
    next term rest later read =>
        obtain ⟨named, isTerm, _⟩ := Parser.program_sound read
        rw [(unknownCharacters_eq_nil_iff _).mpr isTerm.noErrors]
        exact .parsed term later
    next reason later stopped =>
        obtain ⟨fuelRemains, consumed, rest, split, isAt⟩ :=
          Parser.exists_at_of_program_stopped stopped
        change Token.scan file 0 source = consumed ++ rest at split
        apply ParseResult.Diagnosed.rejected later
        · intro silent
          obtain ⟨noUnknown, silent⟩ := List.append_eq_nil_iff.mp silent
          obtain ⟨token, member, isError⟩ :=
            isAt.exists_error fuelRemains silent
          have noErrors := (unknownCharacters_eq_nil_iff _).mp noUnknown
          apply noErrors token _ isError
          rw [split]
          exact List.mem_append_right consumed member
        · refine Or.inr ⟨isUtf8, ?_⟩
          rw [lex_of_valid file valid]
          cases reason with
          | lexical => exact ⟨none, rfl⟩
          | fault error => exact ⟨some error, rfl⟩
          | outOfFuel => exact (fuelRemains rfl).elim
        · intro diagnostic member
          rcases List.mem_append.mp member with unknown | reported
          · obtain ⟨token, listed, rfl⟩ := List.mem_map.mp unknown
            exact tokensLie token (List.mem_of_mem_filter listed)
          · exact isAt.liesIn (split ▸ tokensLie) finishLies diagnostic reported
  · rw [Diagnostics.hasCode_append, trusted, hasCode_unknownCharacters]
    rfl

/-- Every source is parsed or diagnosed. -/
theorem parse_diagnosed
    (file : Nat)
    (source : Text)
    (types : TypePool)
    (trusted : Diagnostics.hasCode known .invalidUtf8 = false) :
    (parse file source types known).Diagnosed file source := by
  cases invalid : Text.firstInvalid? source with
  | some offset => exact parse_diagnosed_of_invalid file types known invalid
  | none => exact parse_diagnosed_of_valid file types trusted invalid

end LambdaCalculus
