import TemplateMarkup.Tag.Category
import TemplateMarkup.Template.Basic

/-!
# Plain markup

Trees of texts and of elements without attributes, as they are before they are written and after
they have been read. This file defines:

* `Markup.source` — a tree as a source,
* `Markup.Document` — the trees that mean what they look like: nothing in them is closed, dropped
  or decoded on the way,
* `Template.shapes` — what a template shows of its elements, places in the source apart,
* `Markup.shapes` — the elements of a tree in the order they open, as a template shows them.
-/

namespace TemplateMarkup

inductive Markup where
  | text (content : String)
  | element (name : String) (kids : List Markup)
  deriving Repr

namespace Markup

/-! ## Writing -/

mutual

/-- The characters of a tree. A void element is its start tag alone. -/
def chars : Markup → List Char
  | text content => content.toList
  | element name kids =>
      '<' :: (name.toList ++ '>' ::
        if Tag.isVoid name then [] else allChars kids ++ '<' :: '/' :: (name.toList ++ ['>']))

def allChars : List Markup → List Char
  | [] => []
  | m :: rest => m.chars ++ allChars rest

end

/-- The tree as a source. -/
def source (m : Markup) : String :=
  String.ofList m.chars

/-! ## What can be written -/

def isText : Markup → Bool
  | text _ => true
  | element _ _ => false

/-- A text that is neither markup nor blank, and holds nothing to decode or to evaluate. -/
structure Literal (content : String) : Prop where
  no_tag : '<' ∉ content.toList
  no_reference : '&' ∉ content.toList
  not_blank : ¬content.toList.all Text.isBlank
  no_interpolation : ∀ before body rest, body ≠ [] →
    content.toList ≠ before ++ ['\x7b', '\x7b'] ++ body ++ ['\x7d', '\x7d'] ++ rest

/-- A name that is read as a whole, of an element whose content is not raw text. -/
structure ElementName (name : String) : Prop where
  read : Tag.readName? name.toList = some (name.toList, [])
  not_raw : ¬Tag.isRawText name

instance (name : String) : Decidable (ElementName name) :=
  decidable_of_iff (Tag.readName? name.toList = some (name.toList, []) ∧ ¬Tag.isRawText name)
    ⟨fun h => ⟨h.1, h.2⟩, fun h => ⟨h.read, h.not_raw⟩⟩

/-- An element that can be written with the given content: void elements have none, and a
preformatted text does not start with the line feed that would be dropped. -/
structure Holds (name : String) (kids : List Markup) : Prop where
  elementName : ElementName name
  void : Tag.isVoid name → kids = []
  newline : name.toLower = "pre" →
    ∀ content rest, kids = text content :: rest → content.toList.head? ≠ some '\n'

/-- The start tag of `name` does not end an element named `parent` that it stands in. -/
structure Fits (parent name : String) : Prop where
  phrasing : ¬(parent.toLower = "p" ∧ Tag.isNonPhrasing name)
  distinct : ¬(Tag.canBeLeftOpen name ∧ Tag.sameName parent name)

instance (parent name : String) : Decidable (Fits parent name) :=
  decidable_of_iff (¬(parent.toLower = "p" ∧ Tag.isNonPhrasing name) ∧
      ¬(Tag.canBeLeftOpen name ∧ Tag.sameName parent name))
    ⟨fun h => ⟨h.1, h.2⟩, fun h => ⟨h.phrasing, h.distinct⟩⟩

/-- The content of an element named `parent`: no two texts next to each other, and no element
that would end its parent. -/
inductive Content : String → List Markup → Prop where
  | nil {parent : String} : Content parent []
  | text {parent content : String} {rest : List Markup} :
      Literal content → (∀ m, rest.head? = some m → ¬m.isText) → Content parent rest →
      Content parent (text content :: rest)
  | element {parent name : String} {kids rest : List Markup} :
      Holds name kids → Fits parent name → Content name kids → Content parent rest →
      Content parent (element name kids :: rest)

/-- A tree that can be the whole source. -/
inductive Document : Markup → Prop where
  | element {name : String} {kids : List Markup} :
      Holds name kids → Content name kids → name ≠ "slot" → name ≠ "template" →
      Document (element name kids)

theorem Literal.ne_nil {content : String} (h : Literal content) : content.toList ≠ [] := by
  intro hnil
  exact h.not_blank (by simp [hnil])

end Markup

/-! ## Shapes -/

/-- A child of an element, its place in the source apart. -/
inductive Item where
  | element (id : ElementId)
  | expression (content : String)
  | text (content : String)
  deriving DecidableEq, Repr

/-- An element as it is seen from its children. -/
structure Shape where
  tag : String
  children : List Item
  deriving DecidableEq, Repr

def Node.item : Node → Item
  | element id => .element id
  | expression _ content _ => .expression content
  | text content _ => .text content

def Element.shape (e : Element) : Shape :=
  { tag := e.tag, children := e.children.toList.map Node.item }

/-- The shapes of all elements, in order. -/
def Template.shapes (t : Template) : List Shape :=
  t.elements.toList.map Element.shape

namespace Markup

mutual

/-- How many elements there are in a tree. -/
def count : Markup → Nat
  | text _ => 0
  | element _ kids => countAll kids + 1

def countAll : List Markup → Nat
  | [] => 0
  | m :: rest => m.count + countAll rest

end

/-- The trees as children, where the first element is number `id`. An element comes before all
elements inside it, so the next one stands behind those. -/
def items (id : ElementId) : List Markup → List Item
  | [] => []
  | text content :: rest => .text content :: items id rest
  | element name kids :: rest => .element id :: items (id + (element name kids).count) rest

mutual

/-- The elements of a tree in the order they open, where the first one is number `id`. -/
def shapes (id : ElementId) : Markup → List Shape
  | text _ => []
  | element name kids => ⟨name, items (id + 1) kids⟩ :: allShapes (id + 1) kids

def allShapes (id : ElementId) : List Markup → List Shape
  | [] => []
  | m :: rest => m.shapes id ++ allShapes (id + m.count) rest

end

mutual

theorem length_shapes (id : ElementId) : ∀ m : Markup, (m.shapes id).length = m.count
  | text _ => by simp [shapes, count]
  | element _ kids => by simp [shapes, count, length_allShapes (id + 1) kids]

theorem length_allShapes (id : ElementId) :
    ∀ ms : List Markup, (allShapes id ms).length = countAll ms
  | [] => by simp [allShapes, countAll]
  | m :: rest => by
      simp [allShapes, countAll, length_shapes id m, length_allShapes (id + m.count) rest]

end

end Markup
end TemplateMarkup
