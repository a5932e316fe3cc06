import TemplateMarkup.Expression.Interpolation
import TemplateMarkup.Expression.LoopHeader
import TemplateMarkup.Tag.Start

/-!
# Templates

A template is the list of its elements in the order they were opened, and the root among them.
Elements refer to each other by index:

* `children`, `branches` and `scopedSlots` lead downward,
* `parent` leads upward, always to a smaller index.
-/

namespace TemplateMarkup

/-- The index of an element in its template. -/
abbrev ElementId := Nat

/-- How a template is read. -/
structure Options where
  /-- Keep a blank text between elements as one space. -/
  preserveWhitespace : Bool := false
  /-- The delimiters of interpolation, if they are not the braces. -/
  delimiters : Option Delimiters := none
  /-- Warn about interpolation in literal attributes. -/
  warnInterpolation : Bool := true
  deriving DecidableEq, Repr

namespace Options

/-- The delimiters in use. -/
def marks (options : Options) : Delimiters :=
  options.delimiters.getD .braces

end Options

/-- A child of an element. -/
inductive Node where
  | element (id : ElementId)
  /-- Text with interpolations. -/
  | expression (parsed : Interpolated) (text : String) (span : Span)
  | text (text : String) (span : Span)
  deriving DecidableEq, Repr

namespace Node

/-- The literal text of a text node. -/
def literal? : Node → Option String
  | text content _ => some content
  | _ => none

/-- Whether a node is text, with or without interpolations. -/
def isText : Node → Bool
  | element _ => false
  | _ => true

/-- Whether a node is a text of one space. -/
def isSpace (n : Node) : Bool :=
  n.literal? == some " "

end Node

/-- A branch of a conditional chain: the condition, if it has one, and the element it shows. -/
structure Branch where
  condition : Option String
  block : ElementId
  deriving DecidableEq, Repr

/-- A name with the expression it is bound to. -/
structure Binding where
  name : String
  value : String
  deriving DecidableEq, Repr

/-- A directive that has no meaning of its own here, such as `v-model` or `v-custom:arg.mod`. -/
structure CustomDirective where
  name : String
  rawName : String
  value : String
  argument : Option String
  modifiers : List String
  deriving DecidableEq, Repr

/-- An event handler. The name tells with `!`, `~` and `&` that it captures, runs once or is
passive. -/
structure Handler where
  name : String
  value : String
  modifiers : List String
  native : Bool
  deriving DecidableEq, Repr

/-- What the directives and attributes of an element say. -/
structure Directives where
  loop : Option LoopHeader := none
  condition : Option String := none
  isElse : Bool := false
  elseCondition : Option String := none
  /-- The chain that starts here, if the element has a condition. -/
  branches : List Branch := []
  isOnce : Bool := false
  key : Option String := none
  ref : Option String := none
  refInLoop : Bool := false
  slotName : Option String := none
  slotTarget : Option String := none
  slotScope : Option String := none
  /-- The scoped slots inside the element, by target. -/
  scopedSlots : List (String × ElementId) := []
  component : Option String := none
  isInlineTemplate : Bool := false
  /-- Whether the element has neither a key nor any attribute. -/
  isPlain : Bool := false
  hasBindings : Bool := false
  props : List Binding := []
  attrs : List Binding := []
  custom : List CustomDirective := []
  handlers : List Handler := []
  deriving DecidableEq, Repr

namespace Directives

/-- Whether the element is an else branch. -/
def isBranch (d : Directives) : Bool :=
  d.isElse || d.elseCondition.isSome

end Directives

structure Element where
  tag : String
  /-- The attributes that no structural directive has claimed. -/
  attributes : List Attribute
  /-- The values of those attributes by name; of a repeated name the last value counts. -/
  attributeMap : List (String × String)
  parent : Option ElementId
  children : Array Node := #[]
  directives : Directives := {}
  span : Span
  deriving DecidableEq, Repr

structure Template where
  elements : Array Element := #[]
  root : Option ElementId := none
  deriving DecidableEq, Repr

namespace Template

def push (t : Template) (e : Element) : Template :=
  { t with elements := t.elements.push e }

def modify (t : Template) (id : ElementId) (f : Element → Element) : Template :=
  { t with elements := t.elements.modify id f }

/-- The root element. -/
def root? (t : Template) : Option Element :=
  t.root.bind (t.elements[·]?)

/-- The children of an element that are elements. -/
def childElements (t : Template) (e : Element) : List Element :=
  e.children.toList.filterMap fun
    | .element id => t.elements[id]?
    | _ => none

/-- An element and the elements around it, innermost first. -/
def ancestors (t : Template) (id : ElementId) : List ElementId :=
  match t.elements[id]?.bind (·.parent) with
  | none => [id]
  | some parent => if parent < id then id :: ancestors t parent else [id]
termination_by id

/-- The loops of the element `parent` and of those around it. -/
def loopsAround (t : Template) (parent : Option ElementId) : List LoopHeader :=
  match parent with
  | none => []
  | some parent => (t.ancestors parent).filterMap fun id => t.elements[id]?.bind (·.directives.loop)

end Template
end TemplateMarkup
