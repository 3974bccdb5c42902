import LambdaCalculus.Proofs.Parser.Spans
import LambdaCalculus.Proofs.Token.Validity

/-!
# The parser reports no empty argument

Every token has a lexeme, and a term reaches over at least one token; so there is
something to show of whatever the parser stops at.  This is shown once for a
sequence of parsers; each parser is then taken apart into the parsers that it
runs.
-/

namespace LambdaCalculus

/-! ## Visible tokens -/

/-- The span reaches over at least one byte of the source. -/
structure Span.Covers
    (span : Span)
    (source : Text) : Prop where
  /-- There is a byte in it. -/
  nonempty : span.lo < span.hi
  /-- It ends where the source ends, or before. -/
  inside : span.hi ≤ source.length

namespace Span.Covers

theorem join
    {left right : Span}
    (leftCovers : left.Covers source)
    (rightCovers : right.Covers source) :
    (left.join right).Covers source where
  nonempty := by
    have leftNonempty := leftCovers.nonempty
    simp only [Span.join_lo, Span.join_hi]
    omega
  inside := Nat.max_le.mpr ⟨leftCovers.inside, rightCovers.inside⟩

theorem slice_ne_nil
    {span : Span}
    (covers : span.Covers source) :
    source.slice span.lo span.hi ≠ [] := by
  have nonempty := covers.nonempty
  have inside := covers.inside
  rw [← List.length_pos_iff, Text.slice, List.length_take, List.length_drop]
  omega

end Span.Covers

/-- The token has a lexeme and stands somewhere in the source. -/
structure Token.Visible
    (source : Text)
    (token : Token) : Prop where
  /-- The lexeme has at least one byte. -/
  lexeme : token.lexeme ≠ []
  /-- The token stands in the source. -/
  covers : token.span.Covers source

namespace Token.Visible

theorem notMem_lexeme
    (visible : Visible source token) :
    [] ∉ [token.lexeme] := by
  simpa using Ne.symm visible.lexeme

theorem notMem_expected
    (visible : Visible source token)
    (named : expected ≠ []) :
    [] ∉ [expected, token.lexeme] :=
  List.not_mem_cons_of_ne_of_not_mem (Ne.symm named) visible.notMem_lexeme

end Token.Visible

/-- The tokens of a source are visible. -/
theorem Token.visible_of_mem_lex
    (file : Nat)
    (source : Text) :
    ∀ token ∈ (lex file source).stream.tokens, token.Visible source := by
  intro token member
  cases invalid : Text.firstInvalid? source with
  | some offset =>
      rw [lex_of_invalid file invalid] at member
      cases member
  | none =>
      have isUtf8 := (Text.firstInvalid?_eq_none_iff source).mp invalid
      rw [lex_of_valid file invalid] at member
      have stands := (scans_scan file 0 isUtf8).stands member
      have inside := stands.bounds.2
      rw [Nat.zero_add] at inside
      refine ⟨?_, stands.nonempty, inside⟩
      cases stands with
      | between front back _ _ isLexeme _ span => exact isLexeme.ne_nil

theorem source_lex
    (file : Nat)
    (source : Text) :
    (lex file source).stream.source = source := by
  unfold lex
  split <;> rfl

/-! ## Parsers -/

/-- What a stop reports has no empty argument. -/
def Stop.Articulate : Stop -> Prop
  | .fault error => [] ∉ error.arguments
  | _ => True

/-- A parser has come from visible tokens to visible tokens with a good value, or
it has stopped and reports no empty argument. -/
inductive Parsed.Telling
    (source : Text)
    (good : Value -> Prop) : Parsed Value -> Prop
  | done
      {value : Value}
      {rest : List Token}
      (types : TypePool)
      (isGood : good value)
      (visible : ∀ token ∈ rest, token.Visible source) :
      Telling source good (.done value rest types)
  | stopped
      {reason : Stop}
      (types : TypePool)
      (articulate : reason.Articulate) :
      Telling source good (.stopped reason types)

namespace Parser

/-- On visible tokens the parser reads good values only, and does not stop with an
empty argument. -/
def Tells
    (source : Text)
    (good : Value -> Prop)
    (parser : Parser Value) : Prop :=
  ∀ tokens types, (∀ token ∈ tokens, token.Visible source) ->
    (parser tokens types).Telling source good

/-- Nothing is asked of the value. -/
def AnyValue (_ : Value) : Prop :=
  True

/-- The term reaches over a part of the source. -/
def Denotes
    (source : Text)
    (term : Term) : Prop :=
  term.span.Covers source

namespace Tells

theorem bind
    {first : Parser Value}
    {next : Value -> Parser Other}
    {good : Value -> Prop}
    {nextGood : Other -> Prop}
    (tells : Tells source good first)
    (nextTells : ∀ value, good value -> Tells source nextGood (next value)) :
    Tells source nextGood (first >>= next) := by
  intro tokens types visible
  rw [bind_apply]
  have told := tells tokens types visible
  cases read : first tokens types with
  | stopped reason later =>
      rw [read] at told
      cases told with
      | stopped _ articulate => exact .stopped later articulate
  | done value rest between =>
      rw [read] at told
      cases told with
      | done _ isGood restVisible =>
          exact nextTells value isGood rest between restVisible

theorem pure
    {value : Value}
    {good : Value -> Prop}
    (isGood : good value) :
    Tells source good (Pure.pure value) :=
  fun _ types visible => .done types isGood visible

theorem stop
    {good : Value -> Prop}
    (articulate : reason.Articulate) :
    Tells source good (Parser.stop reason) :=
  fun _ types _ => .stopped types articulate

theorem nextKind : Tells source AnyValue Parser.nextKind :=
  fun _ types visible => .done types trivial visible

theorem intern
    (former : TypeFormer) :
    Tells source AnyValue (Parser.intern former) :=
  fun _ _ visible => .done _ trivial visible

theorem refuse
    {good : Value -> Prop}
    {error : Token -> ParseError}
    (named : expected ≠ [])
    (articulate : ∀ token, token.Visible source -> [] ∉ (error token).arguments) :
    Tells source good (Parser.refuse finish expected error) := by
  intro tokens types visible
  cases tokens with
  | nil =>
      refine .stopped types ?_
      simpa [Stop.Articulate, ParseError.arguments] using Ne.symm named
  | cons token rest =>
      rw [Parser.refuse]
      split
      next => exact .stopped types trivial
      next =>
          exact .stopped types
            (articulate token (visible token List.mem_cons_self))

theorem token
    {error : Token -> ParseError}
    (named : expected ≠ [])
    (articulate : ∀ token, token.Visible source -> [] ∉ (error token).arguments) :
    Tells source (Token.Visible source)
      (Parser.token finish kind expected error) := by
  intro tokens types visible
  have refuses : Tells source (Token.Visible source)
      (Parser.refuse finish expected error) :=
    refuse named articulate
  have refused := refuses tokens types visible
  cases tokens with
  | nil => exact refused
  | cons found rest =>
      obtain ⟨foundVisible, restVisible⟩ := List.forall_mem_cons.mp visible
      rw [Parser.token]
      split
      next => exact .done types foundVisible restVisible
      next => exact refused

/-- A token that is not the one looked for is reported by its lexeme. -/
theorem found
    {error : Token -> ParseError}
    (named : expected ≠ [])
    (shows : ∀ token, (error token).arguments = [token.lexeme]) :
    Tells source (Token.Visible source)
      (Parser.token finish kind expected error) := by
  refine token named fun token visible => ?_
  rw [shows]
  exact visible.notMem_lexeme

theorem expect
    (named : expected ≠ []) :
    Tells source (Token.Visible source)
      (Parser.expect finish kind expected) :=
  token named fun _ visible => visible.notMem_expected named

theorem accept : Tells source AnyValue (Parser.accept kind) := by
  intro tokens types visible
  cases tokens with
  | nil => exact .done types trivial visible
  | cons found rest =>
      rw [Parser.accept]
      split
      next =>
          exact .done types trivial (List.forall_mem_cons.mp visible).2
      next => exact .done types trivial visible

/-- The function without argument that is reported reaches over some token. -/
theorem requireArgument
    (denotes : Denotes source function) :
    Tells source AnyValue (Parser.requireArgument source left function) := by
  intro tokens types visible
  cases tokens with
  | nil => exact .done types trivial visible
  | cons right rest =>
      rw [Parser.requireArgument]
      split
      next =>
          refine .stopped types ?_
          simpa [Stop.Articulate, ParseError.arguments] using
            Ne.symm denotes.slice_ne_nil
      next => exact .done types trivial visible

theorem variableOf
    {name : Token}
    (visible : name.Visible source) :
    Tells source (Denotes source) (Parser.variableOf scope name) := by
  unfold Parser.variableOf
  split
  next => exact pure visible.covers
  next => exact stop visible.notMem_lexeme

theorem endOfInput : Tells source AnyValue Parser.endOfInput := by
  intro tokens types visible
  cases tokens with
  | nil => exact .done types trivial visible
  | cons token rest =>
      have isVisible := visible token List.mem_cons_self
      rw [Parser.endOfInput]
      split
      next => exact .stopped types trivial
      next => exact .stopped types isVisible.notMem_lexeme

end Tells

/-! ## Types and terms -/

theorem tells_types_and_atoms
    (source : Text)
    (finish : Span)
    (fuel : Nat) :
    Tells source AnyValue (typeWith finish fuel) ∧
      Tells source AnyValue (atomWith finish fuel) := by
  induction fuel with
  | zero => exact ⟨.stop trivial, .stop trivial⟩
  | succ fuel inductionHypothesis =>
      obtain ⟨typeTells, atomTells⟩ := inductionHypothesis
      constructor
      · rw [typeWith]
        refine atomTells.bind fun parameter _ => ?_
        refine Tells.accept.bind fun arrow _ => ?_
        split
        next => exact typeTells.bind fun result _ => .intern _
        next => exact .pure trivial
      · rw [atomWith]
        refine Tells.nextKind.bind fun kind _ => ?_
        split
        next =>
            refine Tells.accept.bind fun _ _ => ?_
            refine typeTells.bind fun inner _ => ?_
            exact (Tells.expect (by decide)).bind fun _ _ => .pure trivial
        next =>
            exact .bind (.found (by decide) fun _ => rfl)
              fun name _ => .intern _

theorem tells_declaration
    (source : Text)
    (finish : Span) :
    Tells source AnyValue (declaration finish) := by
  have typeTells : Tells source AnyValue (type finish) :=
    fun tokens => (tells_types_and_atoms source finish _).1 tokens
  unfold declaration
  refine Tells.accept.bind fun colon _ => ?_
  split
  next =>
      refine typeTells.bind fun declared _ => ?_
      exact (Tells.expect (by decide)).bind fun _ _ => .pure trivial
  next => exact Tells.accept.bind fun _ _ => .pure trivial

theorem tells_terms_and_arguments
    (stream : TokenStream)
    (fuel : Nat) :
    (∀ scope, Tells stream.source (Denotes stream.source)
        (termWith stream fuel scope)) ∧
      ∀ scope (left : Token) function, left.Visible stream.source ->
        Tells stream.source (Denotes stream.source)
          (argumentsWith stream fuel scope left function) := by
  induction fuel with
  | zero => exact ⟨fun _ => .stop trivial, fun _ _ _ _ => .stop trivial⟩
  | succ fuel inductionHypothesis =>
      obtain ⟨termTells, argumentsTell⟩ := inductionHypothesis
      constructor
      · intro scope
        rw [termWith]
        refine Tells.nextKind.bind fun kind _ => ?_
        split
        next =>
            exact (Tells.expect (by decide)).bind
              fun name visible => .variableOf visible
        next =>
            refine .bind (.found (by decide) fun _ => rfl)
              fun left leftVisible => ?_
            refine Tells.accept.bind fun lambda _ => ?_
            split
            next =>
                refine .bind (.found (by decide) fun _ => rfl) fun name _ => ?_
                refine (tells_declaration _ _).bind fun declared _ => ?_
                refine (termTells _).bind fun body _ => ?_
                exact (Tells.expect (by decide)).bind fun right rightVisible =>
                  .pure (leftVisible.covers.join rightVisible.covers)
            next =>
                refine (termTells scope).bind fun function denotes => ?_
                refine (Tells.requireArgument denotes).bind fun _ _ => ?_
                exact argumentsTell scope left function leftVisible
      · intro scope left function leftVisible
        rw [argumentsWith]
        refine Tells.nextKind.bind fun kind _ => ?_
        split
        next =>
            exact .refuse (by decide) fun _ visible =>
              visible.notMem_expected (by decide)
        next =>
            refine (Tells.expect (by decide)).bind
              fun right rightVisible => .pure ?_
            rw [Denotes, Term.span_withSpan]
            exact leftVisible.covers.join rightVisible.covers
        next =>
            refine (termTells scope).bind fun argument _ => ?_
            exact argumentsTell scope left _ leftVisible

theorem tells_program
    (stream : TokenStream) :
    Tells stream.source AnyValue (program stream) := by
  unfold program
  have termTells : Tells stream.source (Denotes stream.source)
      fun tokens types => termWith stream (enoughFuel tokens) [] tokens types :=
    fun tokens => (tells_terms_and_arguments stream _).1 [] tokens
  refine termTells.bind fun term _ => ?_
  exact Tells.endOfInput.bind fun _ _ => .pure trivial

end Parser

end LambdaCalculus
