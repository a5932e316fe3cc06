import TemplateMarkup.Text.Basic

/-!
# Spans

A span is a pair of byte offsets into a source. This file defines:

* the operations that move and join spans,
* `slice?`, the text a span covers, when both its ends are ends of characters.

Offsets have no bound here, so that the spans of a source are exact however long it is. Where
offsets have 32 bits, all that are too far become the furthest one (`Span.clamp`). The spans of a
source are the same there if it has less than 4 GiB (`Span.Covers.clamped_eq`); in longer sources
they are not, and many places share the furthest offset.
-/

namespace TemplateMarkup

/-- The bytes from `start` up to, not including, `stop`. -/
structure Span where
  start : Nat
  stop : Nat
  deriving DecidableEq, Repr, Inhabited

namespace Span

/-- The span at `offset` that covers nothing. -/
def empty (offset : Nat) : Span :=
  ⟨offset, offset⟩

def size (s : Span) : Nat :=
  s.stop - s.start

def isEmpty (s : Span) : Bool :=
  s.start == s.stop

/-- The span of the same bytes in a source that has `delta` more bytes in front. -/
def shift (delta : Nat) (s : Span) : Span :=
  ⟨s.start + delta, s.stop + delta⟩

/-- The smallest span that holds both. -/
def cover (s t : Span) : Span :=
  ⟨min s.start t.start, max s.stop t.stop⟩

/-- The ends in order; a span whose ends are swapped is no range. -/
def range? (s : Span) : Option (Nat × Nat) :=
  if s.start ≤ s.stop then some (s.start, s.stop) else none

/-- The characters a span covers. -/
def sliceChars? (s : Span) (source : List Char) : Option (List Char) :=
  if s.start ≤ s.stop then do
    let (_, rest) ← Text.splitBytes? s.start [] source
    let (inside, _) ← Text.splitBytes? (s.stop - s.start) [] rest
    some inside
  else none

/-- The text a span covers; `none` if it is reversed, ends past the source or cuts a character. -/
def slice? (s : Span) (source : String) : Option String :=
  (s.sliceChars? source.toList).map String.ofList

end Span
end TemplateMarkup
