import LambdaCalculus.Proofs.Token.Lossless

/-!
# Excerpts of a source

Some tokens that follow each other in a source reach from the start of the first
one to the end of the last one.  The bytes between these places, taken out of
the source, are scanned as the same tokens: what stands in front of a token and
behind it does not matter, unless it makes an identifier longer.
-/

namespace LambdaCalculus
namespace Token

/-! ## Tokens in order -/

/-- The tokens lie one behind the other, and none of them is empty. -/
structure InOrder (tokens : List Token) : Prop where
  /-- No token is empty. -/
  nonempty : ∀ token ∈ tokens, token.span.lo < token.span.hi
  /-- Every token starts where those in front of it end, or later. -/
  apart : tokens.Pairwise fun left right => left.span.hi ≤ right.span.lo

theorem InOrder.part
    {part tokens : List Token}
    (inOrder : InOrder tokens)
    (inside : part <:+: tokens) :
    InOrder part where
  nonempty token member := inOrder.nonempty token (inside.mem member)
  apart := inOrder.apart.sublist inside.sublist

theorem Scans.inOrder
    (scans : Scans file offset text tokens) :
    InOrder tokens where
  nonempty _ member := (scans.stands member).nonempty
  apart := scans.pairwise

/-! ## The extent of tokens -/

/-- The span from the first token to the last one. -/
def extent : List Token -> Span
  | [] => .nowhere
  | first :: rest =>
      ⟨first.span.file, first.span.lo,
        ((first :: rest).getLast (List.cons_ne_nil _ _)).span.hi⟩

theorem extent_hi
    {tokens : List Token}
    (nonempty : tokens ≠ []) :
    (extent tokens).hi = (tokens.getLast nonempty).span.hi := by
  cases tokens with
  | nil => exact (nonempty rfl).elim
  | cons first rest => rfl

theorem extent_cons_append
    {first : Token}
    {front back : List Token}
    (nonempty : back ≠ []) :
    extent (first :: (front ++ back)) =
      ⟨first.span.file, first.span.lo, (extent back).hi⟩ := by
  have last : (first :: front ++ back).getLast (List.cons_ne_nil _ _) =
      back.getLast nonempty :=
    List.getLast_append_of_ne_nil _ nonempty
  rw [extent_hi nonempty, ← last]
  rfl

/-- An extent starts with one of the tokens and ends with one. -/
theorem exists_mem_extent
    {tokens : List Token}
    (nonempty : tokens ≠ []) :
    ∃ first ∈ tokens, ∃ last ∈ tokens,
      extent tokens = ⟨first.span.file, first.span.lo, last.span.hi⟩ := by
  cases tokens with
  | nil => exact (nonempty rfl).elim
  | cons first rest =>
      exact ⟨first, List.mem_cons_self, _, List.getLast_mem _, rfl⟩

namespace InOrder

variable {tokens part front back : List Token}

theorem extent_lo_le
    (inOrder : InOrder tokens)
    (member : token ∈ tokens) :
    (extent tokens).lo ≤ token.span.lo := by
  obtain ⟨nonempty, apart⟩ := inOrder
  cases tokens with
  | nil => cases member
  | cons first rest =>
      rcases List.mem_cons.mp member with rfl | behind
      · exact Nat.le_refl _
      · have further := (List.pairwise_cons.mp apart).1 token behind
        have positive := nonempty first List.mem_cons_self
        change first.span.lo ≤ token.span.lo
        omega

theorem le_extent_hi
    (inOrder : InOrder tokens)
    (member : token ∈ tokens) :
    token.span.hi ≤ (extent tokens).hi := by
  induction tokens generalizing token with
  | nil => cases member
  | cons first rest inductionHypothesis =>
      have restInOrder := inOrder.part (List.suffix_cons first rest).isInfix
      cases rest with
      | nil =>
          rw [List.mem_singleton.mp member]
          exact Nat.le_refl _
      | cons second others =>
          have sameEnd : (extent (first :: second :: others)).hi =
              (extent (second :: others)).hi := rfl
          rw [sameEnd]
          rcases List.mem_cons.mp member with rfl | behind
          · have further := (List.pairwise_cons.mp inOrder.apart).1 second
              List.mem_cons_self
            have positive := inOrder.nonempty second (by simp)
            have reaches := inductionHypothesis restInOrder List.mem_cons_self
            omega
          · exact inductionHypothesis restInOrder behind

/-- The extent of some of the tokens lies within the extent of all. -/
theorem extent_part
    (inOrder : InOrder tokens)
    (inside : part <:+: tokens)
    (nonempty : part ≠ []) :
    (extent tokens).lo ≤ (extent part).lo ∧
      (extent part).hi ≤ (extent tokens).hi := by
  obtain ⟨first, firstMember, last, lastMember, same⟩ :=
    exists_mem_extent nonempty
  rw [same]
  exact ⟨inOrder.extent_lo_le (inside.mem firstMember),
    inOrder.le_extent_hi (inside.mem lastMember)⟩

theorem extent_lt
    (inOrder : InOrder tokens)
    (nonempty : tokens ≠ []) :
    (extent tokens).lo < (extent tokens).hi := by
  obtain ⟨first, member, _⟩ := exists_mem_extent nonempty
  have starts := inOrder.extent_lo_le member
  have positive := inOrder.nonempty first member
  have ends := inOrder.le_extent_hi member
  omega

theorem extent_apart
    (inOrder : InOrder (front ++ back))
    (frontNonempty : front ≠ [])
    (backNonempty : back ≠ []) :
    (extent front).hi ≤ (extent back).lo := by
  obtain ⟨_, _, last, lastMember, sameFront⟩ :=
    exists_mem_extent frontNonempty
  obtain ⟨first, firstMember, _, _, sameBack⟩ := exists_mem_extent backNonempty
  rw [sameFront, sameBack]
  exact (List.pairwise_append.mp inOrder.apart).2.2 last lastMember first
    firstMember

/-- The first token joined with what the last ones reach over gives the extent
of all. -/
theorem join_extent
    {first : Token}
    (inOrder : InOrder (first :: (front ++ back)))
    (nonempty : back ≠ []) :
    first.span.join (extent back) = extent (first :: (front ++ back)) := by
  have backInside : back <:+: first :: (front ++ back) :=
    ⟨first :: front, [], by simp⟩
  obtain ⟨starts, _⟩ := inOrder.extent_part backInside nonempty
  have ends : first.span.hi ≤ _ := inOrder.le_extent_hi List.mem_cons_self
  rw [extent_cons_append nonempty] at starts ends ⊢
  simp only [Span.join, Span.mk.injEq, true_and]
  exact ⟨Nat.min_eq_left starts, Nat.max_eq_right ends⟩

end InOrder

/-! ## Scanning an excerpt -/

theorem IsLexeme.take
    {kind : Kind}
    {lexeme back : Text}
    (isLexeme : IsLexeme kind lexeme back)
    (known : kind ≠ .error)
    (count : Nat) :
    IsLexeme kind lexeme (back.take count) := by
  cases isLexeme with
  | identifier nonempty letters ends =>
      refine .identifier nonempty letters ?_
      cases back with
      | nil => rwa [List.take_nil]
      | cons byte rest =>
          cases count with
          | zero => rfl
          | succ count => exact ends
  | symbol listed => exact .symbol listed _
  | error _ _ => exact (known rfl).elim

/-- What stands in front of a token does not matter behind it. -/
theorem Scans.drop
    {front back : List Token}
    {first : Token}
    (scans : Scans file offset text (front ++ first :: back)) :
    Scans file first.span.lo (text.drop (first.span.lo - offset))
      (first :: back) := by
  have starts :=
    (scans.stands (List.mem_append_right front List.mem_cons_self)).bounds.1
  generalize split : front ++ first :: back = tokens at scans
  induction scans generalizing front with
  | nil offset => simp at split
  | @blank offset text tokens byte blank rest inductionHypothesis =>
      subst split
      have behind :=
        (rest.stands (List.mem_append_right front List.mem_cons_self)).bounds.1
      have dropped : first.span.lo - offset =
          first.span.lo - (offset + 1) + 1 := by
        omega
      rw [dropped, List.drop_succ_cons]
      exact inductionHypothesis behind rfl
  | @lexeme offset tokens kind lexeme text isLexeme rest inductionHypothesis =>
      cases front with
      | nil =>
          obtain ⟨rfl, rfl⟩ := List.cons.inj split
          have dropped : (placed kind file offset lexeme).span.lo - offset =
              0 :=
            Nat.sub_self offset
          rw [dropped, List.drop_zero]
          exact .lexeme isLexeme rest
      | cons passed others =>
          obtain ⟨rfl, rfl⟩ := List.cons.inj split
          have behind := (rest.stands
            (List.mem_append_right others List.mem_cons_self)).bounds.1
          have dropped : first.span.lo - offset =
              lexeme.length + (first.span.lo - (offset + lexeme.length)) := by
            omega
          rw [dropped, List.drop_length_add_append]
          exact inductionHypothesis behind rfl

/-- What stands behind a token does not matter in front of it. -/
theorem Scans.take
    {front back : List Token}
    (scans : Scans file offset text (front ++ back))
    (nonempty : front ≠ [])
    (known : ∀ token ∈ front, token.kind ≠ .error) :
    Scans file offset (text.take ((extent front).hi - offset)) front := by
  generalize split : front ++ back = tokens at scans
  induction scans generalizing front with
  | nil offset => simp_all
  | @blank offset text tokens byte blank rest inductionHypothesis =>
      subst split
      obtain ⟨_, _, last, member, same⟩ := exists_mem_extent nonempty
      have stands := rest.stands (List.mem_append_left back member)
      have positive := stands.nonempty
      have starts := stands.bounds.1
      have taken : (extent front).hi - offset =
          (extent front).hi - (offset + 1) + 1 := by
        rw [same]
        change last.span.hi - offset = last.span.hi - (offset + 1) + 1
        omega
      rw [taken, List.take_succ_cons]
      exact .blank blank (inductionHypothesis nonempty known rfl)
  | @lexeme offset tokens kind lexeme text isLexeme rest inductionHypothesis =>
      obtain ⟨first, others, rfl⟩ := List.exists_cons_of_ne_nil nonempty
      obtain ⟨rfl, rfl⟩ := List.cons.inj split
      obtain ⟨firstKnown, othersKnown⟩ := List.forall_mem_cons.mp known
      by_cases last : others = []
      · subst last
        have taken : (extent [placed kind file offset lexeme]).hi - offset =
            lexeme.length :=
          Nat.add_sub_cancel_left offset lexeme.length
        have behind : Scans file (offset + lexeme.length) (text.take 0) [] :=
          .nil _
        have alone := Scans.lexeme (isLexeme.take firstKnown 0) behind
        rw [taken, List.take_left]
        simpa using alone
      · have sameEnd : (extent (placed kind file offset lexeme ::
            ([] ++ others))).hi = (extent others).hi := by
          rw [extent_cons_append last]
        rw [List.nil_append] at sameEnd
        obtain ⟨_, _, final, member, same⟩ := exists_mem_extent last
        have stands := rest.stands (List.mem_append_left back member)
        have positive := stands.nonempty
        have starts := stands.bounds.1
        have taken : (extent others).hi - offset = lexeme.length +
            ((extent others).hi - (offset + lexeme.length)) := by
          rw [same]
          change final.span.hi - offset = lexeme.length +
            (final.span.hi - (offset + lexeme.length))
          omega
        rw [sameEnd, taken, List.take_length_add_append]
        exact .lexeme (isLexeme.take firstKnown _)
          (inductionHypothesis last othersKnown rfl)

/-- The bytes that some tokens reach over are scanned as these tokens. -/
theorem Scans.slice
    {part tokens : List Token}
    (scans : Scans file 0 source tokens)
    (inside : part <:+: tokens)
    (nonempty : part ≠ [])
    (known : ∀ token ∈ part, token.kind ≠ .error) :
    Scans file (extent part).lo
      (source.slice (extent part).lo (extent part).hi) part := by
  obtain ⟨front, back, rfl⟩ := inside
  obtain ⟨first, others, rfl⟩ := List.exists_cons_of_ne_nil nonempty
  rw [List.append_assoc, List.cons_append] at scans
  have dropped := Scans.drop scans
  rw [Nat.sub_zero, ← List.cons_append] at dropped
  exact dropped.take nonempty known

end Token
end LambdaCalculus
