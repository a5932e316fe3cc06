import TemplateMarkup.Text.Basic

/-!
# Cursors

A cursor is a place in a source: the text from there on, and how many bytes come before it.

Behind what has been read a cursor goes on at its exact end, however long the source is. A reading
that goes on behind a tag where the span of the tag ends, in 32 bits, comes to the same places in a
source of less than 4 GiB (`OffsetScanner.leads_iff`). In longer sources it may come back to what
has been read (`OffsetScanner.not_reads_of_long`), or stand inside a character
(`OffsetScanner.breaks_inside`).
-/

namespace TemplateMarkup

structure Cursor where
  offset : Nat
  rest : List Char
  deriving DecidableEq, Repr

namespace Cursor

/-- The start of a source. -/
def ofText (source : String) : Cursor :=
  { offset := 0, rest := source.toList }

/-- The cursor behind `taken`, with `rest` left to read. -/
def advance (c : Cursor) (taken rest : List Char) : Cursor :=
  { offset := c.offset + Text.byteLength taken, rest }

end Cursor
end TemplateMarkup
