import TemplateMarkup.Event.Scan

/-!
# The template block of a component file

A component file holds blocks; `templateBody?` finds the content of the first `template` element
that stands in no other element. Templates inside it belong to its content, and a block that is not
closed runs to the end of the file.
-/

namespace TemplateMarkup
namespace Block

/-- The search for the block: how many elements are open, where the content of the block starts
while it is open, and its span once it is closed. -/
structure Search where
  depth : Nat := 0
  start : Option Nat := none
  body : Option Span := none
  deriving DecidableEq, Repr

namespace Search

/-- An element opens. -/
def enter (s : Search) (tag : StartTag) : Search :=
  let isBlock :=
    s.start.isNone && s.body.isNone && s.depth == 0 && Tag.sameName tag.name "template"
  { s with
    depth := s.depth + 1
    start := if isBlock then some tag.span.stop else s.start }

/-- An element closes. -/
def leave (s : Search) (span : Span) : Search :=
  let depth := s.depth - 1
  match s.start with
  | some start =>
      if depth = 0 then { depth, start := none, body := some ⟨start, span.start⟩ }
      else { s with depth }
  | none => { s with depth }

def step (s : Search) : Event → Search
  | .opened tag false => s.enter tag
  | .closed _ span => s.leave span
  | _ => s

end Search

/-- The span of the content of the template block. -/
def templateBody? (source : String) : Option Span :=
  ((scan source).foldl Search.step {}).body

end Block
end TemplateMarkup
