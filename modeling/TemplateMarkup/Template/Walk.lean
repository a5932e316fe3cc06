import TemplateMarkup.Template.Basic

/-!
# Walking a template

`Template.breadthFirst` lists the elements that can be reached from the root, level by level. From
an element the walk goes on to its children, then to the branches of its chain, then to its scoped
slots.
-/

namespace TemplateMarkup
namespace Element

/-- The children of an element that are elements. -/
def childIds (e : Element) : List ElementId :=
  e.children.toList.filterMap fun
    | .element id => some id
    | _ => none

/-- The elements an element leads to. -/
def links (e : Element) : List ElementId :=
  e.childIds ++ e.directives.branches.map (·.block) ++ e.directives.scopedSlots.map (·.2)

end Element

namespace Template

/-- The elements found so far, in order, and for each element of the template whether it is
among them. -/
structure Walk where
  order : Array ElementId
  seen : Array Bool
  deriving DecidableEq, Repr

namespace Walk

/-- Adds an element that has not been found yet. -/
def visit (w : Walk) (id : ElementId) : Walk :=
  if w.seen[id]? = some false then { order := w.order.push id, seen := w.seen.set! id true } else w

/-- Follows the links of the elements found, from the one at `position` on; `room` bounds the
number of elements left to follow. -/
def follow (t : Template) (room position : Nat) (w : Walk) : Walk :=
  match room, w.order[position]? with
  | room + 1, some id =>
      let links := match t.elements[id]? with
        | some e => e.links
        | none => []
      follow t room (position + 1) (links.foldl visit w)
  | _, _ => w

end Walk

/-- The elements that can be reached from the root, breadth first. -/
def breadthFirst (t : Template) : List ElementId :=
  let start : Walk := { order := #[], seen := Array.replicate t.elements.size false }
  match t.root with
  | none => []
  | some root => ((start.visit root).follow t t.elements.size 0).order.toList

end Template
end TemplateMarkup
