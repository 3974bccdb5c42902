import LambdaCalculus.Proofs.Parser.Lookahead

/-!
# The parser stops at the first impossible token

Tokens are viable if further tokens make a program of them.  A source that is
not a program is reported once, and the report is about the token behind the
longest viable part of its tokens: about the end of input if all of them are
viable, and else about the first token that cannot follow.
-/

namespace LambdaCalculus

namespace Lexed

/-- The lexed source with other tokens in place of its own. -/
def withTokens
    (lexed : Lexed)
    (tokens : List Token) : Lexed :=
  { lexed with stream := { lexed.stream with tokens := tokens } }

/-- The tokens are parsed as a program. -/
def Accepts
    (lexed : Lexed)
    (types : TypePool)
    (known : Diagnostics)
    (tokens : List Token) : Prop :=
  ((lexed.withTokens tokens).parse types known).term.isSome = true

/-- Some tokens behind the given ones make a program of them. -/
def Viable
    (lexed : Lexed)
    (types : TypePool)
    (known : Diagnostics)
    (tokens : List Token) : Prop :=
  ∃ more, lexed.Accepts types known (tokens ++ more)

/-- So many tokens from the front are viable, and no more are. -/
structure LongestViable
    (lexed : Lexed)
    (types : TypePool)
    (known : Diagnostics)
    (count : Nat) : Prop where
  /-- There are so many tokens. -/
  exist : count ≤ lexed.stream.tokens.length
  /-- They are viable. -/
  viable : lexed.Viable types known (lexed.stream.tokens.take count)
  /-- More of them are not. -/
  longest : ∀ other, other ≤ lexed.stream.tokens.length ->
    lexed.Viable types known (lexed.stream.tokens.take other) ->
    other ≤ count

theorem parse_of_trusted
    (lexed : Lexed)
    (types : TypePool)
    (trusted : Diagnostics.hasCode (known ++ lexed.diagnostics) .invalidUtf8 =
      false) :
    lexed.parse types known =
      match Parser.program lexed.stream lexed.stream.tokens types with
      | .done term _ types => ⟨some term, types, lexed.diagnostics⟩
      | .stopped reason types =>
          ⟨none, types, lexed.diagnostics ++ reason.diagnostics⟩ := by
  unfold parse
  exact if_neg (by simp [trusted])

/-- What is accepted depends on the tokens alone. -/
theorem accepts_iff
    (lexed : Lexed)
    (types : TypePool)
    (trusted : Diagnostics.hasCode (known ++ lexed.diagnostics) .invalidUtf8 =
      false)
    (tokens : List Token) :
    lexed.Accepts types known tokens ↔ Grammar.IsTermIn [] tokens := by
  unfold Accepts
  rw [parse_of_trusted (lexed.withTokens tokens) types trusted]
  constructor
  · intro accepted
    split at accepted
    next read =>
        obtain ⟨named, isTerm, resolved⟩ := Parser.program_sound read
        exact Grammar.isTermIn_of_resolve isTerm resolved
    next => cases accepted
  · rintro ⟨named, isTerm, bound⟩
    obtain ⟨⟨_, _⟩, resolved⟩ := (named.exists_resolve_iff [] types).mpr bound
    obtain ⟨read, programRead, _⟩ := Parser.program_complete
      (lexed.withTokens tokens).stream isTerm resolved
    have accepted : Parser.program (lexed.withTokens tokens).stream
        (lexed.withTokens tokens).stream.tokens types = _ := programRead
    rw [accepted]
    rfl

end Lexed

namespace Parser

open Grammar

/-- Tokens that are read, or that end too early, are the front of a program. -/
theorem EndsOpen.exists_isTermIn
    (endsOpen : EndsOpen finish (program stream tokens types)) :
    ∃ more, IsTermIn [] (tokens ++ more) := by
  generalize read : program stream tokens types = result at endsOpen
  cases endsOpen with
  | done term later =>
      obtain ⟨named, isTerm, resolved⟩ := program_sound read
      refine ⟨[], ?_⟩
      rw [List.append_nil]
      exact isTermIn_of_resolve isTerm resolved
  | unexpectedEnd expected later =>
      cases program_completable read with
      | fault elsewhere => exact (elsewhere rfl).elim
      | unexpectedEnd more whole => exact ⟨more, whole⟩
  | outOfFuel later => cases program_completable read

/-- No more tokens are the front of a program than those that have been read
when the parser stops, for it would stop at the next token whatever follows that. -/
theorem le_length_of_isTermIn
    {consumed rest more : List Token}
    (stops : ∀ other, other.head? = rest.head? ->
      program stream (consumed ++ other) types = .stopped reason later)
    (exist : count ≤ (consumed ++ rest).length)
    (isTermIn : IsTermIn [] ((consumed ++ rest).take count ++ more)) :
    count ≤ consumed.length := by
  apply Nat.le_of_not_lt
  intro longer
  obtain ⟨further, rfl⟩ := Nat.exists_eq_add_of_lt longer
  cases rest with
  | nil =>
      rw [List.append_nil] at exist
      omega
  | cons next rest =>
      rw [Nat.add_assoc, List.take_length_add_append,
        List.append_assoc] at isTermIn
      have stopped := stops ((next :: rest).take (further + 1) ++ more) rfl
      obtain ⟨named, isTerm, bound⟩ := isTermIn
      obtain ⟨⟨_, _⟩, resolved⟩ :=
        (named.exists_resolve_iff [] types).mpr bound
      obtain ⟨read, programRead, _⟩ := program_complete stream isTerm resolved
      rw [stopped] at programRead
      cases programRead

end Parser

/-- What is reported of a stop is about the first entry that is left. -/
theorem Stop.At.exists_entry
    {stream : TokenStream}
    (isAt : Stop.At stream.finish consumed rest reason)
    (split : stream.tokens = consumed ++ rest)
    (ordered : stream.tokens.Pairwise fun left right =>
      left.span.hi ≤ right.span.hi)
    (noErrors : Grammar.NoErrors stream.tokens)
    (fuelRemains : reason ≠ .outOfFuel) :
    ∃ entry diagnostic,
      stream.entries[consumed.length]? = some entry ∧
      reason.diagnostics = [diagnostic] ∧
      diagnostic.span.hi = entry.span.hi ∧
      (diagnostic.code = .unexpectedEnd ↔ entry.symbol = .endOfInput) := by
  rw [split] at ordered noErrors
  cases isAt with
  | outOfFuel => exact (fuelRemains rfl).elim
  | lexical isNext isError =>
      obtain ⟨behind, rfl⟩ := List.head?_eq_some_iff.mp isNext
      exact (noErrors _ (by simp) isError).elim
  | @fault error isAt =>
      cases rest with
      | nil =>
          obtain ⟨expected, rfl⟩ := isAt
          refine ⟨stream.finishEntry, _, ?_, rfl, rfl, by
            simp [ParseError.diagnostic, ParseError.code,
              TokenStream.finishEntry]⟩
          simp [TokenStream.entries, split]
      | cons token rest =>
          obtain ⟨notEnd, place⟩ := isAt
          refine ⟨.ofToken token, _, ?_, rfl, ?_, by
            simpa [ParseError.diagnostic, TokenStream.Entry.ofToken]⟩
          · simp [TokenStream.entries, split]
          · rcases place with here | ⟨left, passed, joined⟩
            · exact congrArg Span.hi here
            · have inOrder : left.span.hi ≤ token.span.hi :=
                (List.pairwise_append.mp ordered).2.2 left passed token
                  List.mem_cons_self
              calc error.span.hi
                  = max left.span.hi token.span.hi := by rw [joined]; rfl
                _ = token.span.hi := Nat.max_eq_right inOrder

/-- Tokens that are not a program give one diagnostic.  It ends where the entry
behind the longest viable part of the tokens ends, and it reports an unexpected
end exactly if this entry is the end of input. -/
theorem parse_stops_behind_longestViable
    (lexed : Lexed)
    (types : TypePool)
    (known : Diagnostics)
    (trusted : Diagnostics.hasCode (known ++ lexed.diagnostics) .invalidUtf8 =
      false)
    (ordered : lexed.stream.tokens.Pairwise fun left right =>
      left.span.hi ≤ right.span.hi)
    (noErrors : Grammar.NoErrors lexed.stream.tokens)
    (rejected : (lexed.parse types known).term = none) :
    ∃ count entry diagnostic,
      lexed.LongestViable types known count ∧
      lexed.stream.entries[count]? = some entry ∧
      (lexed.parse types known).diagnostics =
        lexed.diagnostics ++ [diagnostic] ∧
      diagnostic.span.hi = entry.span.hi ∧
      (diagnostic.code = .unexpectedEnd ↔ entry.symbol = .endOfInput) := by
  have viable_iff : ∀ tokens, lexed.Viable types known tokens ↔
      ∃ more, Grammar.IsTermIn [] (tokens ++ more) := fun tokens =>
    exists_congr fun more => lexed.accepts_iff types trusted (tokens ++ more)
  rw [lexed.parse_of_trusted types trusted] at rejected ⊢
  cases Parser.predictive_program lexed.stream lexed.stream.tokens types with
  | done term consumed rest later split reads =>
      have read := reads rest (.refl rest)
      rw [← split] at read
      rw [read] at rejected
      cases rejected
  | stopped reason consumed rest later split isAt stops endsOpen =>
      have stopped := stops rest rfl
      rw [← split] at stopped
      have fuelRemains : reason ≠ .outOfFuel := by
        rintro rfl
        cases Parser.program_completable stopped
      obtain ⟨entry, diagnostic, isEntry, reported, ends, code⟩ :=
        isAt.exists_entry split ordered noErrors fuelRemains
      refine ⟨consumed.length, entry, diagnostic, ⟨?_, ?_, ?_⟩, isEntry, ?_,
        ends, code⟩
      · rw [split, List.length_append]
        exact Nat.le_add_right _ _
      · rw [split, List.take_left, viable_iff]
        exact endsOpen.exists_isTermIn
      · intro other exist viable
        obtain ⟨more, isTermIn⟩ := (viable_iff _).mp viable
        rw [split] at exist isTermIn
        exact Parser.le_length_of_isTermIn stops exist isTermIn
      · rw [stopped, ← reported]

/-- In `(λx (x))` the inner right parenthesis cannot follow, because an argument
is missing in front of it. -/
theorem parse_stops_behind_longestViable_argument :
    let lexed := lex 0 "(λx (x))"
    ∃ count entry diagnostic,
      lexed.LongestViable .empty [] count ∧
      lexed.stream.entries[count]? = some entry ∧
      (lexed.parse .empty []).diagnostics = [diagnostic] ∧
      diagnostic.span = ⟨0, 5, 8⟩ ∧
      diagnostic.span.hi = entry.span.hi ∧
      (diagnostic.code = .unexpectedEnd ↔ entry.symbol = .endOfInput) := by
  intro lexed
  have noErrors : ∀ token ∈ lexed.stream.tokens, token.kind ≠ .error := by
    decide +kernel
  obtain ⟨count, entry, diagnostic, longest, isEntry, reported, ends, code⟩ :=
    parse_stops_behind_longestViable lexed .empty [] (by decide +kernel)
      (by decide +kernel) noErrors (by decide +kernel)
  have spans : (lexed.parse .empty []).diagnostics.map Diagnostic.span =
      [⟨0, 5, 8⟩] := by
    decide +kernel
  have lexedWell : lexed.diagnostics = [] := by decide +kernel
  rw [lexedWell, List.nil_append] at reported
  rw [reported] at spans
  exact ⟨count, entry, diagnostic, longest, isEntry, reported,
    List.singleton_inj.mp spans, ends, code⟩

end LambdaCalculus
