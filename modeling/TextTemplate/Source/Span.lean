/-!
# Spans

A span is a range of bytes of a text, given by its first byte and its length. Both are bounded by
`maxOffset`, so texts and offsets beyond 4 GiB are out of reach: `Span.ofParts` and `Span.ofBounds`
clamp what they are given, and the end of a span whose parts add up to more is `maxOffset`.

`Span.cover` joins two spans and everything between them; `Span.through` runs from the start of one
span to the end of another.
-/
namespace TextTemplate

/-- The largest offset and the largest length of a span. -/
def maxOffset : Nat := 4294967295

/-- A range of bytes. -/
@[ext]
structure Span where
  start : Nat
  length : Nat
  start_le : start ≤ maxOffset
  length_le : length ≤ maxOffset
deriving DecidableEq

namespace Span

/-- The span of `length` bytes at `start`. A start that is too large becomes `maxOffset`, a length
that is too large reaches from the start to `maxOffset`. -/
def ofParts (start length : Nat) : Span where
  start := min start maxOffset
  length := if length ≤ maxOffset then length else maxOffset - min start maxOffset
  start_le := Nat.min_le_right _ _
  length_le := by split <;> omega

/-- The span from `start` up to `stop`, empty if `stop` comes first. -/
def ofBounds (start stop : Nat) : Span :=
  ofParts start (stop - start)

/-- The empty span at an offset. -/
def emptyAt (offset : Nat) : Span :=
  ofParts offset 0

/-- The offset after the last byte, at most `maxOffset`. -/
def stop (s : Span) : Nat :=
  min (s.start + s.length) maxOffset

/-- The span has no bytes. -/
def isEmpty (s : Span) : Bool :=
  s.length == 0

/-- The offset is one of the span's bytes; an empty span contains the offset where it stands. -/
def contains (s : Span) (offset : Nat) : Bool :=
  if s.isEmpty then offset == s.start else s.start ≤ offset && offset < s.stop

/-- Neither end of `t` is outside of `s`. -/
def containsSpan (s t : Span) : Bool :=
  s.start ≤ t.start && t.stop ≤ s.stop

/-- The least span with both spans inside. -/
def cover (s t : Span) : Span :=
  ofBounds (min s.start t.start) (max s.stop t.stop)

/-- The span from the start of `s` to the end of `t`, empty if `t` ends before. -/
def through (s t : Span) : Span :=
  ofBounds s.start t.stop

theorem stop_le (s : Span) : s.stop ≤ maxOffset :=
  Nat.min_le_right _ _

theorem start_le_stop (s : Span) : s.start ≤ s.stop := by
  have := s.start_le
  simp only [stop]
  omega

end Span

end TextTemplate
