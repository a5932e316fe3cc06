import TemplateMarkup.Text.Basic

/-!
# Lines and columns

`LineIndex` records where the lines of a text end and turns a byte offset into a line and a
column, both counted from zero.
-/

namespace TemplateMarkup

/-- A line and the byte column in it, from zero. -/
structure LineCol where
  line : Nat
  col : Nat
  deriving DecidableEq, Repr, Inhabited

/-- The offsets of the line feeds of a text, and its size in bytes. -/
structure LineIndex where
  newlines : List Nat
  size : Nat
  deriving DecidableEq, Repr

namespace LineIndex

/-- The offsets of the line feeds in `cs`, which stands at `offset`; `found` is newest first. -/
def newlinesOnto (found : List Nat) (offset : Nat) : List Char → List Nat
  | [] => found.reverse
  | c :: cs =>
      newlinesOnto (if c = '\n' then offset :: found else found) (offset + c.utf8Size) cs

def ofText (text : String) : LineIndex :=
  { newlines := newlinesOnto [] 0 text.toList, size := Text.byteLength text.toList }

/-- The position of a byte offset; `none` past the end of the text. -/
def lineCol? (index : LineIndex) (offset : Nat) : Option LineCol :=
  if index.size < offset then none
  else
    let ended := index.newlines.takeWhile (· < offset)
    let start := match ended.getLast? with
      | none => 0
      | some newline => newline + 1
    some { line := ended.length, col := offset - start }

end LineIndex
end TemplateMarkup
