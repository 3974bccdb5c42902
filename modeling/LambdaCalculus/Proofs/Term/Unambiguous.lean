import LambdaCalculus.Proofs.Term.Alike
import LambdaCalculus.Proofs.Term.RoundTrip
import LambdaCalculus.Proofs.Term.Writer

/-!
# Printed terms are unambiguous

In each style a printed term tells where it ends and which term it is, up to
spans, and the same holds for printed types.  A name or a number ends where
neither a letter nor a digit follows; everything else is delimited by its own
punctuation.  Named and indexed terms differ in how they show variables and
binders only, so they are treated together.
-/

namespace LambdaCalculus

/-! ## Names and numbers -/

namespace Text

/-- A byte of a name or of a number. -/
def isWordByte (byte : UInt8) : Bool :=
  isLetter byte || isDigit byte

/-- The text is a name or a number. -/
structure IsWord (text : Text) : Prop where
  /-- It is not empty. -/
  nonempty : text ≠ []
  /-- It has letters and digits only. -/
  bytes : ∀ byte ∈ text, isWordByte byte = true

/-- No name or number in front of the text goes on in it. -/
def delimits : Text -> Bool
  | [] => true
  | byte :: _ => !isWordByte byte

/-- A name or number is what stands before the first other byte. -/
theorem IsWord.append_inj
    (isWord : IsWord word)
    (isOther : IsWord other)
    (stops : delimits rest = true)
    (otherStops : delimits otherRest = true)
    (same : word ++ rest = other ++ otherRest) :
    word = other ∧ rest = otherRest := by
  have taken : ∀ {text behind : Text}, IsWord text -> delimits behind = true ->
      (text ++ behind).takeWhile isWordByte = text := by
    intro text behind isText behindStops
    rw [List.takeWhile_append_of_pos isText.bytes]
    cases behind with
    | nil => exact List.append_nil text
    | cons byte more =>
        have notWord : isWordByte byte = false := by
          simpa [delimits] using behindStops
        rw [List.takeWhile_cons_of_neg (by simp [notWord]), List.append_nil]
  have sameWord : word = other := by
    rw [← taken isWord stops, same, taken isOther otherStops]
  subst sameWord
  exact ⟨rfl, List.append_cancel_left same⟩

theorem IsWord.delimits_append
    (isWord : IsWord word)
    (rest : Text) :
    delimits (word ++ rest) = false := by
  obtain ⟨nonempty, bytes⟩ := isWord
  cases word with
  | nil => exact absurd rfl nonempty
  | cons byte more =>
      have isByte := bytes byte List.mem_cons_self
      rw [List.cons_append, delimits, isByte, Bool.not_true]

theorem isWord_of_isIdentifier
    {name : Text}
    (isName : name.isIdentifier = true) :
    name.IsWord := by
  obtain ⟨nonempty, letters⟩ := (isIdentifier_iff name).mp isName
  refine ⟨nonempty, ?_⟩
  intro byte member
  rw [isWordByte, letters byte member, Bool.true_or]

theorem isWord_decimal
    (number : Nat) :
    (decimal number).IsWord := by
  refine ⟨numeral_ne_nil 10 _ number, ?_⟩
  intro byte member
  rw [isWordByte, isDigit_of_mem_decimal number byte member, Bool.or_true]

end Text

open Text

/-! ## Types -/

namespace TypeTree

theorem text_error :
    error.text = [0x3C, 0x65, 0x72, 0x72, 0x6F, 0x72, 0x3E] := by
  decide

theorem text_invalid :
    invalid.text =
      [0x3C, 0x69, 0x6E, 0x76, 0x61, 0x6C, 0x69, 0x64, 0x3E] := by
  decide

/-- Only a name starts with a letter. -/
theorem delimits_text_append
    {tree : TypeTree}
    (named : tree.NamedBy fun name => isIdentifier name = true)
    (rest : Text) :
    delimits (tree.text ++ rest) = false ↔ ∃ name, tree = base name := by
  cases tree with
  | invalid => simp [text_invalid, delimits, isWordByte, isLetter, isDigit]
  | error => simp [text_error, delimits, isWordByte, isLetter, isDigit]
  | base name =>
      refine iff_of_true ?_ ⟨name, rfl⟩
      exact (isWord_of_isIdentifier named).delimits_append rest
  | arrow parameter result =>
      simp [text_arrow, delimits, isWordByte, isLetter, isDigit]

theorem exists_base_iff_of_text
    {left right : TypeTree}
    (leftNamed : left.NamedBy fun name => isIdentifier name = true)
    (rightNamed : right.NamedBy fun name => isIdentifier name = true)
    (same : left.text ++ rest = right.text ++ otherRest) :
    (∃ name, left = base name) ↔ ∃ name, right = base name := by
  rw [← delimits_text_append leftNamed rest, same,
    delimits_text_append rightNamed otherRest]

/-- A printed type tells which type it is and where it ends. -/
theorem text_append_inj
    {left right : TypeTree}
    (leftNamed : left.NamedBy fun name => isIdentifier name = true)
    (rightNamed : right.NamedBy fun name => isIdentifier name = true)
    (stops : delimits rest = true)
    (otherStops : delimits otherRest = true)
    (same : left.text ++ rest = right.text ++ otherRest) :
    left = right ∧ rest = otherRest := by
  induction left generalizing right rest otherRest with
  | invalid =>
      have bases := exists_base_iff_of_text leftNamed rightNamed same
      cases right with
      | invalid => exact ⟨rfl, List.append_cancel_left same⟩
      | error => simp [text_invalid, text_error] at same
      | base name => simp at bases
      | arrow parameter result => simp [text_invalid, text_arrow] at same
  | error =>
      have bases := exists_base_iff_of_text leftNamed rightNamed same
      cases right with
      | invalid => simp [text_invalid, text_error] at same
      | error => exact ⟨rfl, List.append_cancel_left same⟩
      | base name => simp at bases
      | arrow parameter result => simp [text_error, text_arrow] at same
  | base name =>
      have bases := exists_base_iff_of_text leftNamed rightNamed same
      obtain ⟨other, rfl⟩ := bases.mp ⟨name, rfl⟩
      have isName := isWord_of_isIdentifier leftNamed
      have isOther := isWord_of_isIdentifier rightNamed
      obtain ⟨rfl, sameRest⟩ := isName.append_inj isOther stops otherStops same
      exact ⟨rfl, sameRest⟩
  | arrow parameter result parameterHypothesis resultHypothesis =>
      have bases := exists_base_iff_of_text leftNamed rightNamed same
      cases right with
      | invalid => simp [text_invalid, text_arrow] at same
      | error => simp [text_error, text_arrow] at same
      | base name => simp at bases
      | arrow otherParameter otherResult =>
          simp only [text_arrow, List.cons_append, List.append_assoc,
            List.cons.injEq, true_and] at same
          obtain ⟨rfl, behind⟩ := parameterHypothesis leftNamed.1 rightNamed.1
            rfl rfl same
          simp only [List.cons.injEq, true_and] at behind
          obtain ⟨rfl, sameRest⟩ := resultHypothesis leftNamed.2 rightNamed.2
            stops otherStops behind
          exact ⟨rfl, sameRest⟩

/-- The first byte of a type with its structure spelled out. -/
def initial : TypeTree -> UInt8
  | .invalid => 0x49
  | .error => 0x45
  | .base _ => 0x42
  | .arrow _ _ => 0x46

theorem initial_eq_of_debug
    {left right : TypeTree}
    (same : left.debug ++ rest = right.debug ++ otherRest) :
    left.initial = right.initial := by
  have head : ∀ (tree : TypeTree) (behind : Text),
      (tree.debug ++ behind).head? = some tree.initial := by
    intro tree behind
    cases tree <;> rfl
  have heads := congrArg List.head? same
  rwa [head, head, Option.some.injEq] at heads

/-- A type with its structure spelled out tells which type it is and where it
ends. -/
theorem debug_append_inj
    {left right : TypeTree}
    (leftNamed : left.NamedBy fun name => isIdentifier name = true)
    (rightNamed : right.NamedBy fun name => isIdentifier name = true)
    (same : left.debug ++ rest = right.debug ++ otherRest) :
    left = right ∧ rest = otherRest := by
  have closing : Text.ofString ")" = [0x29] := by decide
  induction left generalizing right rest otherRest with
  | invalid =>
      have initials := initial_eq_of_debug same
      cases right with
      | invalid => exact ⟨rfl, List.append_cancel_left same⟩
      | _ => simp [initial] at initials
  | error =>
      have initials := initial_eq_of_debug same
      cases right with
      | error => exact ⟨rfl, List.append_cancel_left same⟩
      | _ => simp [initial] at initials
  | base name =>
      have initials := initial_eq_of_debug same
      cases right with
      | base other =>
          simp only [debug, List.append_assoc, List.append_cancel_left_eq]
            at same
          have isName := isWord_of_isIdentifier leftNamed
          have isOther := isWord_of_isIdentifier rightNamed
          rw [closing] at same
          obtain ⟨rfl, behind⟩ := isName.append_inj isOther rfl rfl same
          exact ⟨rfl, List.append_cancel_left behind⟩
      | _ => simp [initial] at initials
  | arrow parameter result parameterHypothesis resultHypothesis =>
      have initials := initial_eq_of_debug same
      cases right with
      | arrow otherParameter otherResult =>
          simp only [debug, List.append_assoc, List.append_cancel_left_eq]
            at same
          obtain ⟨rfl, behind⟩ := parameterHypothesis leftNamed.1 rightNamed.1
            same
          rw [List.append_cancel_left_eq] at behind
          obtain ⟨rfl, closed⟩ := resultHypothesis leftNamed.2 rightNamed.2
            behind
          exact ⟨rfl, List.append_cancel_left closed⟩
      | _ => simp [initial] at initials

end TypeTree

/-! ## Declared types -/

namespace TypePool

variable {types : TypePool}

/-- Types that have numbers are told apart by their trees. -/
theorem WellFormed.tree_injective
    (wellFormed : types.WellFormed permitted)
    (leftValid : types.isValid left = true)
    (rightValid : types.isValid right = true)
    (same : types.tree left = types.tree right) :
    left = right := by
  have leftDenotes := Denotes.of_denotesType (wellFormed.denotesType leftValid)
  have rightDenotes := Denotes.of_denotesType (wellFormed.denotesType rightValid)
  rw [← same] at rightDenotes
  exact leftDenotes.injective wellFormed.nodup rightDenotes

end TypePool

namespace Term

variable {types : TypePool}

/-- A declaration tells which type is declared and where it ends, in front of a
byte that cannot be part of it. -/
theorem declarationText_append_inj
    {left right : Option TypeId}
    (wellFormed : types.WellFormed fun name => isIdentifier name = true)
    (leftValid : left.all types.isValid = true)
    (rightValid : right.all types.isValid = true)
    (stop : UInt8)
    (stops : isWordByte stop = false)
    (noColon : stop ≠ 0x3A)
    (same : declarationText types left ++ stop :: rest =
      declarationText types right ++ stop :: otherRest) :
    left = right ∧ rest = otherRest := by
  have named := wellFormed.namedBy.tree
  have delimited : ∀ behind, delimits (stop :: behind) = true := by
    intro behind
    rw [delimits, stops, Bool.not_false]
  cases left with
  | none =>
      cases right with
      | none => exact ⟨rfl, List.tail_eq_of_cons_eq same⟩
      | some type =>
          rw [declarationText_some] at same
          exact absurd (List.head_eq_of_cons_eq same) noColon
  | some type =>
      cases right with
      | none =>
          rw [declarationText_some] at same
          exact absurd (List.head_eq_of_cons_eq same).symm noColon
      | some other =>
          rw [declarationText_some, declarationText_some] at same
          obtain ⟨sameTree, behind⟩ := TypeTree.text_append_inj (named type)
            (named other) (delimited rest) (delimited otherRest)
            (List.tail_eq_of_cons_eq same)
          rw [wellFormed.tree_injective leftValid rightValid sameTree]
          exact ⟨rfl, List.tail_eq_of_cons_eq behind⟩

end Term

/-- A name has a letter, and a number has none. -/
theorem binderName_ne_decimal
    (level number : Nat) :
    binderName level ≠ decimal number := by
  intro same
  obtain ⟨nonempty, letters⟩ :=
    (isIdentifier_iff _).mp (isIdentifier_binderName level)
  obtain ⟨byte, member⟩ := List.exists_mem_of_ne_nil _ nonempty
  have letter := letters byte member
  rw [same] at member
  have digit := isDigit_of_mem_decimal number byte member
  simp only [isLetter, isDigit, Bool.or_eq_true, Bool.and_eq_true,
    decide_eq_true_eq, UInt8.le_iff_toNat_le] at letter digit
  simp at letter digit
  omega

/-- Under the same binders different variables are shown differently. -/
theorem variableName_injective
    (same : Term.variableName level left = Term.variableName level right) :
    left = right := by
  unfold Term.variableName at same
  split at same
  next leftBound =>
      split at same
      next rightBound =>
          have levels := binderName_injective same
          omega
      next => exact absurd same (binderName_ne_decimal _ _)
  next =>
      split at same
      next => exact absurd same.symm (binderName_ne_decimal _ _)
      next => exact decimal_injective same

/-! ## Terms in parentheses -/

/-- How terms with one pair of parentheses for each abstraction and each
application show their variables and binders, under so many binders. -/
structure Layout where
  /-- A variable. -/
  occurrence : Nat -> Nat -> Text
  /-- What stands between the lambda and the body of an abstraction. -/
  binder : Nat -> Option TypeId -> Text

namespace Layout

/-- Variables and binders have names. -/
def named (types : TypePool) : Layout where
  occurrence := Term.variableName
  binder level declared :=
    binderName level ++ (Term.declarationText types declared ++ [0x2E])

/-- Variables are indices, and binders have no names. -/
def indexed (types : TypePool) : Layout where
  occurrence _ index := decimal index
  binder _ declared := Term.declarationText types declared ++ [0x20]

/-- Variables and declarations can be told apart. -/
structure Decodable
    (layout : Layout)
    (accepts : TypeId -> Bool) : Prop where
  /-- A variable is a name or a number. -/
  isWord : ∀ level index, (layout.occurrence level index).IsWord
  /-- Different variables at one place are shown differently. -/
  index_unique : ∀ level left right,
    layout.occurrence level left = layout.occurrence level right -> left = right
  /-- A binder tells which type it declares and where it ends. -/
  binder_unique : ∀ level left right rest otherRest,
    left.all accepts = true -> right.all accepts = true ->
    layout.binder level left ++ rest = layout.binder level right ++ otherRest ->
    left = right ∧ rest = otherRest

variable {types : TypePool}

theorem named_decodable
    (wellFormed : types.WellFormed fun name => isIdentifier name = true) :
    (named types).Decodable types.isValid where
  isWord level index := by
    simp only [named, Term.variableName]
    split
    next => exact isWord_of_isIdentifier (isIdentifier_binderName _)
    next => exact isWord_decimal index
  index_unique level left right same := variableName_injective same
  binder_unique level left right rest otherRest leftValid rightValid same := by
    simp only [named, List.append_assoc, List.append_cancel_left_eq] at same
    exact Term.declarationText_append_inj wellFormed leftValid rightValid 0x2E
      (by decide) (by decide) same

theorem indexed_decodable
    (wellFormed : types.WellFormed fun name => isIdentifier name = true) :
    (indexed types).Decodable types.isValid where
  isWord _ index := isWord_decimal index
  index_unique _ _ _ same := decimal_injective same
  binder_unique level left right rest otherRest leftValid rightValid same := by
    simp only [indexed, List.append_assoc] at same
    exact Term.declarationText_append_inj wellFormed leftValid rightValid 0x20
      (by decide) (by decide) same

end Layout

namespace Term

/-- A term in a layout. -/
def spelled
    (layout : Layout)
    (asFunction : Bool)
    (level : Nat) : Term -> Text
  | .var _ index => layout.occurrence level index
  | .abs _ declared body =>
      "(λ" ++ (layout.binder level declared ++
        (spelled layout false (level + 1) body ++ ")"))
  | .app _ function argument =>
      enclose asFunction
        (spelled layout true level function ++ " " ++
          spelled layout false level argument)

theorem named_eq_spelled
    (types : TypePool)
    (asFunction : Bool)
    (level : Nat)
    (term : Term)
    (shallow : level + term.binderDepth < Word.modulus) :
    term.named types asFunction level =
      term.spelled (.named types) asFunction level := by
  have dot : Text.ofString "." = [0x2E] := by decide
  induction term generalizing asFunction level with
  | var span index => rfl
  | abs span declared body bodyHypothesis =>
      simp only [binderDepth] at shallow
      rw [named, Word.next_of_lt (by omega), bodyHypothesis false (level + 1)
        (by omega), spelled]
      simp only [Layout.named, dot, List.append_assoc]
  | app span function argument functionHypothesis argumentHypothesis =>
      simp only [binderDepth] at shallow
      rw [named, functionHypothesis true level (by omega),
        argumentHypothesis false level (by omega), spelled]

theorem indexed_eq_spelled
    (types : TypePool)
    (asFunction : Bool)
    (level : Nat)
    (term : Term) :
    term.indexed types asFunction =
      term.spelled (.indexed types) asFunction level := by
  have blank : Text.ofString " " = [0x20] := by decide
  induction term generalizing asFunction level with
  | var span index => rfl
  | abs span declared body bodyHypothesis =>
      rw [indexed, bodyHypothesis false (level + 1), spelled]
      simp only [Layout.indexed, blank, List.append_assoc]
  | app span function argument functionHypothesis argumentHypothesis =>
      rw [indexed, functionHypothesis true level, argumentHypothesis false level,
        spelled]

/-! ## Spines -/

/-- The arguments of a function behind it, each behind a blank. -/
def spelledArguments
    (layout : Layout)
    (level : Nat)
    (arguments : List Term) : Text :=
  arguments.flatMap fun argument => 0x20 :: argument.spelled layout false level

theorem spelled_showsSpines
    (layout : Layout)
    (level : Nat) :
    ShowsSpines fun asFunction => spelled layout asFunction level where
  var _ _ := rfl
  abs _ _ _ := rfl
  app _ _ _ _ := rfl

theorem argumentsText_spelled
    (layout : Layout)
    (level : Nat)
    (arguments : List Term) :
    argumentsText (spelled layout false level) arguments =
      spelledArguments layout level arguments := by
  have blank : Text.ofString " " = [0x20] := by decide
  simp [argumentsText, spelledArguments, blank]

theorem spelled_app
    (layout : Layout)
    (level : Nat)
    (span : Span)
    (function argument : Term) :
    (app span function argument).spelled layout false level =
      0x28 :: ((app span function argument).head.spelled layout false level ++
        (spelledArguments layout level (app span function argument).arguments ++
          [0x29])) := by
  have opening : Text.ofString "(" = [0x28] := by decide
  have closing : Text.ofString ")" = [0x29] := by decide
  rw [(spelled_showsSpines layout level).enclosed, argumentsText_spelled,
    opening, closing]
  simp [head]

theorem spelled_abs
    (layout : Layout)
    (level : Nat)
    (span : Span)
    (declared : Option TypeId)
    (body : Term) :
    (abs span declared body).spelled layout false level =
      0x28 :: 0xCE :: 0xBB :: (layout.binder level declared ++
        (body.spelled layout false (level + 1) ++ [0x29])) := by
  have opening : Text.ofString "(λ" = [0x28, 0xCE, 0xBB] := by decide
  have closing : Text.ofString ")" = [0x29] := by decide
  simp [spelled, opening, closing]

theorem withoutSpans_eq_of_spine
    {left right : Term}
    (heads : left.head.withoutSpans = right.head.withoutSpans)
    (arguments : left.arguments.map withoutSpans =
      right.arguments.map withoutSpans) :
    left.withoutSpans = right.withoutSpans := by
  induction left generalizing right with
  | var span index =>
      cases right with
      | app => simp [Term.arguments] at arguments
      | _ => exact heads
  | abs span declared body =>
      cases right with
      | app => simp [Term.arguments] at arguments
      | _ => exact heads
  | app span function argument functionHypothesis =>
      cases right with
      | app otherSpan otherFunction otherArgument =>
          simp only [Term.arguments, List.map_append, List.map_cons,
            List.map_nil] at arguments
          obtain ⟨earlier, last⟩ := List.append_inj' arguments rfl
          have functions : function.withoutSpans = otherFunction.withoutSpans :=
            functionHypothesis heads earlier
          rw [withoutSpans_app, withoutSpans_app, functions,
            List.singleton_inj.mp last]
      | _ => simp [Term.arguments] at arguments

/-! ## Reading terms back -/

/-- The constructors of terms. -/
inductive Kind
  | var
  | abs
  | app
deriving DecidableEq

/-- The constructor of a term. -/
def kind : Term -> Kind
  | .var _ _ => .var
  | .abs _ _ _ => .abs
  | .app _ _ _ => .app

/-- The constructor of the term that a text starts with: a variable is a name or a
number, and the parenthesis of an abstraction stands in front of a lambda. -/
def kindOfText : Text -> Kind
  | [] => .app
  | byte :: rest =>
      if isWordByte byte then .var
      else if rest.head? = some 0xCE then .abs
      else .app

variable {layout : Layout} {accepts : TypeId -> Bool}

/-- No printed term starts with a lambda. -/
theorem head?_spelled_ne
    (decodable : layout.Decodable accepts)
    (level : Nat)
    (term : Term)
    (rest : Text) :
    (term.spelled layout false level ++ rest).head? ≠ some 0xCE := by
  cases term with
  | var span index =>
      obtain ⟨nonempty, bytes⟩ := decodable.isWord level index
      rw [spelled]
      intro lambda
      cases word : layout.occurrence level index with
      | nil => exact nonempty word
      | cons byte more =>
          rw [word, List.cons_append, List.head?_cons, Option.some.injEq] at lambda
          have isByte := bytes byte (by simp [word])
          rw [lambda] at isByte
          exact absurd isByte (by decide)
  | abs span declared body =>
      rw [spelled_abs]
      simp
  | app span function argument =>
      rw [spelled_app]
      simp

/-- The first bytes of a printed term give away its constructor. -/
theorem kindOfText_spelled
    (decodable : layout.Decodable accepts)
    (level : Nat)
    (term : Term)
    (rest : Text) :
    kindOfText (term.spelled layout false level ++ rest) = term.kind := by
  cases term with
  | var span index =>
      obtain ⟨nonempty, bytes⟩ := decodable.isWord level index
      rw [spelled]
      cases word : layout.occurrence level index with
      | nil => exact absurd word nonempty
      | cons byte more => exact if_pos (bytes byte (by simp [word]))
  | abs span declared body =>
      rw [spelled_abs]
      rfl
  | app span function argument =>
      rw [spelled_app, List.cons_append, List.append_assoc, kindOfText,
        if_neg (by decide), if_neg (head?_spelled_ne decodable level _ _)]
      rfl

/-- In front of a text that delimits it, a printed term tells which term it is, up
to spans, and where it ends. -/
def Legible
    (layout : Layout)
    (accepts : TypeId -> Bool)
    (level : Nat)
    (term : Term) : Prop :=
  ∀ (other : Term) (rest otherRest : Text),
    other.declaresOnly accepts = true ->
    delimits rest = true -> delimits otherRest = true ->
    term.spelled layout false level ++ rest =
      other.spelled layout false level ++ otherRest ->
    term.withoutSpans = other.withoutSpans ∧ rest = otherRest

theorem delimits_spelledArguments
    (layout : Layout)
    (level : Nat)
    (arguments : List Term)
    (rest : Text) :
    delimits (spelledArguments layout level arguments ++ 0x29 :: rest) =
      true := by
  cases arguments <;> rfl

/-- A list of arguments ends at the parenthesis that closes the application. -/
theorem spelledArguments_inj
    {arguments others : List Term}
    (legible : ∀ argument ∈ arguments, Legible layout accepts level argument)
    (accepted : ∀ argument ∈ others, argument.declaresOnly accepts = true)
    (same : spelledArguments layout level arguments ++ 0x29 :: rest =
      spelledArguments layout level others ++ 0x29 :: otherRest) :
    arguments.map withoutSpans = others.map withoutSpans ∧
      rest = otherRest := by
  induction arguments generalizing others with
  | nil =>
      cases others with
      | nil => exact ⟨rfl, List.tail_eq_of_cons_eq same⟩
      | cons other others => simp [spelledArguments] at same
  | cons argument arguments inductionHypothesis =>
      cases others with
      | nil => simp [spelledArguments] at same
      | cons other others =>
          rw [List.forall_mem_cons] at legible accepted
          simp only [spelledArguments, List.flatMap_cons, List.cons_append,
            List.append_assoc, List.cons.injEq, true_and] at same
          obtain ⟨first, behind⟩ := legible.1 other _ _ accepted.1
            (delimits_spelledArguments layout level arguments rest)
            (delimits_spelledArguments layout level others otherRest) same
          obtain ⟨further, sameRest⟩ :=
            inductionHypothesis legible.2 accepted.2 behind
          rw [List.map_cons, List.map_cons, first, further]
          exact ⟨rfl, sameRest⟩

theorem declaresOnly_spine
    {term : Term}
    (declares : term.declaresOnly accepts = true) :
    term.head.declaresOnly accepts = true ∧
      ∀ argument ∈ term.arguments, argument.declaresOnly accepts = true := by
  induction term with
  | var span index => exact ⟨declares, nofun⟩
  | abs span declared body => exact ⟨declares, nofun⟩
  | app span function argument functionHypothesis =>
      rw [declaresOnly, Bool.and_eq_true] at declares
      obtain ⟨head, arguments⟩ := functionHypothesis declares.1
      refine ⟨head, ?_⟩
      intro part member
      rcases List.mem_append.mp member with earlier | last
      · exact arguments part earlier
      · rw [List.mem_singleton.mp last]
        exact declares.2

theorem kind_eq_of_spelled
    {term other : Term}
    (decodable : layout.Decodable accepts)
    (same : term.spelled layout false level ++ rest =
      other.spelled layout false level ++ otherRest) :
    term.kind = other.kind := by
  rw [← kindOfText_spelled decodable level term rest, same,
    kindOfText_spelled decodable level other otherRest]

theorem legible_var
    (decodable : layout.Decodable accepts)
    (level : Nat)
    (span : Span)
    (index : Nat) :
    Legible layout accepts level (.var span index) := by
  intro other rest otherRest _ stops otherStops same
  have kinds := kind_eq_of_spelled decodable same
  cases other with
  | var otherSpan otherIndex =>
      have isWord := decodable.isWord level
      obtain ⟨sameWord, sameRest⟩ := (isWord index).append_inj
        (isWord otherIndex) stops otherStops same
      rw [decodable.index_unique level index otherIndex sameWord]
      exact ⟨rfl, sameRest⟩
  | _ => cases kinds

theorem legible_abs
    (decodable : layout.Decodable accepts)
    (level : Nat)
    (span : Span)
    (declares : (abs span declared body).declaresOnly accepts = true)
    (bodyLegible : Legible layout accepts (level + 1) body) :
    Legible layout accepts level (.abs span declared body) := by
  intro other rest otherRest otherDeclares _ _ same
  have kinds := kind_eq_of_spelled decodable same
  cases other with
  | abs otherSpan otherDeclared otherBody =>
      rw [declaresOnly, Bool.and_eq_true] at declares otherDeclares
      simp only [spelled_abs, List.cons_append, List.append_assoc,
        List.cons.injEq, true_and] at same
      obtain ⟨rfl, bodies⟩ := decodable.binder_unique level declared
        otherDeclared _ _ declares.1 otherDeclares.1 same
      obtain ⟨sameBody, closed⟩ := bodyLegible otherBody _ _ otherDeclares.2 rfl
        rfl bodies
      rw [withoutSpans_abs, withoutSpans_abs, sameBody]
      exact ⟨rfl, List.tail_eq_of_cons_eq closed⟩
  | _ => cases kinds

theorem legible_app
    (decodable : layout.Decodable accepts)
    (level : Nat)
    (span : Span)
    (function argument : Term)
    (headLegible : Legible layout accepts level
      (app span function argument).head)
    (argumentsLegible : ∀ part ∈ (app span function argument).arguments,
      Legible layout accepts level part) :
    Legible layout accepts level (.app span function argument) := by
  intro other rest otherRest otherDeclares _ _ same
  have kinds := kind_eq_of_spelled decodable same
  cases other with
  | app otherSpan otherFunction otherArgument =>
      obtain ⟨otherHead, otherArguments⟩ := declaresOnly_spine otherDeclares
      simp only [spelled_app, List.cons_append, List.append_assoc,
        List.cons.injEq, true_and] at same
      obtain ⟨heads, behind⟩ := headLegible _ _ _ otherHead
        (delimits_spelledArguments layout level _ rest)
        (delimits_spelledArguments layout level _ otherRest) same
      obtain ⟨arguments, sameRest⟩ :=
        spelledArguments_inj argumentsLegible otherArguments behind
      exact ⟨withoutSpans_eq_of_spine heads arguments, sameRest⟩
  | _ => cases kinds

/-- Every printed term can be read back.  The induction is on the number of nodes,
because the head and the arguments of an application are smaller than it but need
not be its direct parts. -/
theorem legible
    (decodable : layout.Decodable accepts)
    (level : Nat)
    (term : Term)
    (declares : term.declaresOnly accepts = true) :
    Legible layout accepts level term := by
  induction size : term.nodeCount using Nat.strongRecOn
    generalizing term level with
  | ind size inductionHypothesis =>
      cases term with
      | var span index => exact legible_var decodable level span index
      | abs span declared body =>
          have bodyDeclares := declares
          rw [declaresOnly, Bool.and_eq_true] at bodyDeclares
          apply legible_abs decodable level span declares
          apply inductionHypothesis body.nodeCount _ _ _ bodyDeclares.2 rfl
          rw [← size, nodeCount_abs]
          omega
      | app span function argument =>
          obtain ⟨headDeclares, argumentsDeclare⟩ := declaresOnly_spine declares
          apply legible_app decodable
          · apply inductionHypothesis _ _ _ _ headDeclares rfl
            have smaller := function.nodeCount_head_le
            rw [← size, nodeCount_app, head]
            omega
          · intro part member
            apply inductionHypothesis _ _ _ _ (argumentsDeclare part member) rfl
            rw [← size]
            exact nodeCount_lt_of_mem_arguments member

/-! ## Terms with their structure spelled out -/

/-- The second byte of a term with its structure spelled out.  The first one does
not tell an abstraction from an application. -/
def Kind.secondByte : Kind -> UInt8
  | .var => 0x61
  | .abs => 0x62
  | .app => 0x70

theorem Kind.secondByte_injective
    {left right : Kind}
    (same : left.secondByte = right.secondByte) :
    left = right := by
  cases left <;> cases right <;> first | rfl | simp [secondByte] at same

theorem kind_eq_of_debug
    {types : TypePool}
    {left right : Term}
    (same : left.debug types ++ rest = right.debug types ++ otherRest) :
    left.kind = right.kind := by
  have second : ∀ (term : Term) (behind : Text),
      (term.debug types ++ behind)[1]? = some term.kind.secondByte := by
    intro term behind
    cases term <;> rfl
  have seconds := congrArg (fun text => text[1]?) same
  simp only [second, Option.some.injEq] at seconds
  exact Kind.secondByte_injective seconds

theorem declarationDebug_append_inj
    {types : TypePool}
    {left right : Option TypeId}
    (wellFormed : types.WellFormed fun name => isIdentifier name = true)
    (leftValid : left.all types.isValid = true)
    (rightValid : right.all types.isValid = true)
    (same : declarationDebug types left ++ ("body=" ++ rest) =
      declarationDebug types right ++ ("body=" ++ otherRest)) :
    left = right ∧ rest = otherRest := by
  have named := wellFormed.namedBy.tree
  have heads := congrArg List.head? same
  cases left with
  | none =>
      cases right with
      | none => exact ⟨rfl, List.append_cancel_left same⟩
      | some type =>
          change some (0x62 : UInt8) = some 0x74 at heads
          exact absurd heads (by decide)
  | some type =>
      cases right with
      | none =>
          change some (0x74 : UInt8) = some 0x62 at heads
          exact absurd heads (by decide)
      | some other =>
          simp only [declarationDebug, List.append_assoc,
            List.append_cancel_left_eq] at same
          obtain ⟨sameTree, behind⟩ :=
            TypeTree.debug_append_inj (named type) (named other) same
          simp only [List.append_cancel_left_eq] at behind
          rw [wellFormed.tree_injective leftValid rightValid sameTree]
          exact ⟨rfl, behind⟩

/-- A term with its structure spelled out tells which term it is, up to spans, and
where it ends. -/
theorem debug_append_inj
    {types : TypePool}
    {left right : Term}
    (wellFormed : types.WellFormed fun name => isIdentifier name = true)
    (leftDeclares : left.declaresOnly types.isValid = true)
    (rightDeclares : right.declaresOnly types.isValid = true)
    (same : left.debug types ++ rest = right.debug types ++ otherRest) :
    left.withoutSpans = right.withoutSpans ∧ rest = otherRest := by
  have closing : Text.ofString ")" = [0x29] := by decide
  induction left generalizing right rest otherRest with
  | var span index =>
      have kinds := kind_eq_of_debug same
      cases right with
      | var otherSpan otherIndex =>
          simp only [debug, List.append_assoc, List.append_cancel_left_eq]
            at same
          rw [closing] at same
          obtain ⟨sameIndex, behind⟩ := (isWord_decimal index).append_inj
            (isWord_decimal otherIndex) rfl rfl same
          rw [decimal_injective sameIndex]
          exact ⟨rfl, List.append_cancel_left behind⟩
      | _ => cases kinds
  | abs span declared body bodyHypothesis =>
      have kinds := kind_eq_of_debug same
      cases right with
      | abs otherSpan otherDeclared otherBody =>
          rw [declaresOnly, Bool.and_eq_true] at leftDeclares rightDeclares
          simp only [debug, List.append_assoc, List.append_cancel_left_eq]
            at same
          obtain ⟨rfl, bodies⟩ := declarationDebug_append_inj wellFormed
            leftDeclares.1 rightDeclares.1 same
          obtain ⟨sameBody, behind⟩ := bodyHypothesis leftDeclares.2
            rightDeclares.2 bodies
          rw [withoutSpans_abs, withoutSpans_abs, sameBody]
          exact ⟨rfl, List.append_cancel_left behind⟩
      | _ => cases kinds
  | app span function argument functionHypothesis argumentHypothesis =>
      have kinds := kind_eq_of_debug same
      cases right with
      | app otherSpan otherFunction otherArgument =>
          rw [declaresOnly, Bool.and_eq_true] at leftDeclares rightDeclares
          simp only [debug, List.append_assoc, List.append_cancel_left_eq]
            at same
          obtain ⟨functions, arguments⟩ := functionHypothesis leftDeclares.1
            rightDeclares.1 same
          rw [List.append_cancel_left_eq] at arguments
          obtain ⟨sameArgument, behind⟩ := argumentHypothesis leftDeclares.2
            rightDeclares.2 arguments
          rw [withoutSpans_app, withoutSpans_app, functions, sameArgument]
          exact ⟨rfl, List.append_cancel_left behind⟩
      | _ => cases kinds

/-! ## All styles -/

/-- Two terms that are printed as the same text, in the same style and under the
same number of binders, are alike.  The terms may have free variables, and their
declared types may be any types of a pool whose base types have names of
letters. -/
theorem alike_of_render_eq
    (types : TypePool)
    (style : Style)
    (outerBinders : Nat)
    (left right : Term)
    (built : types.Built fun name => isIdentifier name = true)
    (leftShallow : outerBinders + left.binderDepth < Word.modulus)
    (rightShallow : outerBinders + right.binderDepth < Word.modulus)
    (leftDeclares : left.declaresOnly types.isValid = true)
    (rightDeclares : right.declaresOnly types.isValid = true)
    (same : left.render types style outerBinders =
      right.render types style outerBinders) :
    left.alike right = true := by
  have wellFormed := built.wellFormed
  rw [alike_iff]
  rw [← List.append_nil (left.render types style outerBinders),
    ← List.append_nil (right.render types style outerBinders)] at same
  cases style with
  | named =>
      simp only [render, named_eq_spelled types false outerBinders _ leftShallow,
        named_eq_spelled types false outerBinders _ rightShallow] at same
      exact (legible (Layout.named_decodable wellFormed) outerBinders left
        leftDeclares right [] [] rightDeclares rfl rfl same).1
  | indexed =>
      simp only [render, indexed_eq_spelled types false 0] at same
      exact (legible (Layout.indexed_decodable wellFormed) 0 left leftDeclares
        right [] [] rightDeclares rfl rfl same).1
  | debug =>
      exact (debug_append_inj wellFormed leftDeclares rightDeclares same).1

/-- Two terms under one binder, which differ in their spans only, are both printed
as `(λb:(A)→<error>.(b a 7))`. -/
theorem alike_of_render_eq_open :
    let types := ((TypePool.empty.base "A").2.function 1 0).2
    let left := abs ⟨0, 0, 20⟩ (some 2) (.app ⟨0, 10, 19⟩
      (.app ⟨0, 10, 15⟩ (.var ⟨0, 11, 12⟩ 0) (.var ⟨0, 13, 14⟩ 1))
      (.var ⟨0, 16, 17⟩ 7))
    let right := abs .nowhere (some 2) (.app .nowhere
      (.app .nowhere (.var .nowhere 0) (.var .nowhere 1)) (.var .nowhere 7))
    left.render types .named 1 = "(λb:(A)→<error>.(b a 7))" ∧
      left.render types .named 1 = right.render types .named 1 ∧
      left.alike right = true := by
  intro types left right
  have built : types.Built fun name => isIdentifier name = true := by
    apply TypePool.Built.function
    · exact .base .empty (by decide)
    · decide
    · decide
  have same : left.render types .named 1 = right.render types .named 1 := rfl
  have alike := alike_of_render_eq types .named 1 left right built (by decide)
    (by decide) (by decide) (by decide) same
  exact ⟨by decide +kernel, same, alike⟩

end Term
end LambdaCalculus
