import LambdaCalculus.Text.Basic

/-!
# Spans

A span is a half-open range of byte offsets in a numbered source.
-/

namespace LambdaCalculus

/-- The bytes from `lo` up to and without `hi` of one source. -/
structure Span where
  /-- The number of the source. -/
  file : Nat
  /-- The first byte offset. -/
  lo : Nat
  /-- The offset after the last byte. -/
  hi : Nat
deriving DecidableEq, Inhabited

namespace Span

/-- The least span of the first span's source that covers both. -/
def join
    (left right : Span) : Span where
  file := left.file
  lo := min left.lo right.lo
  hi := max left.hi right.hi

@[simp] theorem join_file
    (left right : Span) :
    (left.join right).file = left.file :=
  rfl

@[simp] theorem join_lo
    (left right : Span) :
    (left.join right).lo = min left.lo right.lo :=
  rfl

@[simp] theorem join_hi
    (left right : Span) :
    (left.join right).hi = max left.hi right.hi :=
  rfl

/-- The source number of a span that points into no source. -/
def noFile : Nat := 4294967295

/-- The span of something that has no place in any source. -/
def nowhere : Span := ⟨noFile, 0, 0⟩

end Span
end LambdaCalculus
