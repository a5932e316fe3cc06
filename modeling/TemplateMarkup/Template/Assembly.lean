import TemplateMarkup.Event.Scan
import TemplateMarkup.Template.Element

/-!
# Assembling a template

`parse` feeds the events of a source, one after the other, to an `Assembly`: the template so far,
the elements open, innermost first, and the warnings. An element that opens is linked in one of
these ways:

* the first element is the root; a later one outside it joins the root's conditional chain as a
  branch, or is dropped,
* inside an element, an else branch joins the chain of the element before it, a scoped slot is
  entered under its target, and anything else is a child.
-/

namespace TemplateMarkup

structure Assembly where
  template : Template := {}
  enclosing : List ElementId := []
  /-- Whether a second root has been reported. -/
  severalRoots : Bool := false
  warnings : Array Warning := #[]
  deriving DecidableEq, Repr

namespace Assembly

def warn (a : Assembly) (kind : Warning.Kind) (span : Span) : Assembly :=
  { a with warnings := a.warnings.push ⟨kind, span⟩ }

def modify (a : Assembly) (id : ElementId) (f : Element → Element) : Assembly :=
  { a with template := a.template.modify id f }

/-! ## Linking an element -/

/-- Reports an else branch that belongs to no chain. -/
def warnElse (a : Assembly) (e : Element) : Assembly :=
  a.warn (.elseWithoutIf e.directives.elseCondition e.tag) e.span

/-- Reports a root that may stand for several nodes. -/
def warnUnstable (a : Assembly) (e : Element) : Assembly :=
  if e.tag = "slot" ∨ e.tag = "template" then a.warn (.unstableRoot ("<" ++ e.tag ++ ">")) e.span
  else if e.directives.loop.isSome then a.warn (.unstableRoot "v-for") e.span
  else a

/-- Makes the first element the root. -/
def addRoot (a : Assembly) (id : ElementId) (e : Element) : Assembly :=
  let a := { a with template := { a.template with root := some id } }
  let a := if e.directives.isBranch then a.warnElse e else a
  a.warnUnstable e

/-- Adds a branch to the conditional chain of the element `head`. -/
def addBranch (a : Assembly) (head id : ElementId) (e : Element) : Assembly :=
  a.modify head (·.update fun d =>
    { d with branches := d.branches ++ [⟨e.directives.elseCondition, id⟩] })

/-- Whether the conditional chain of a root takes another branch: it has not ended in a plain
else. -/
def takesBranch (root : Element) : Bool :=
  root.directives.condition.isSome &&
    root.directives.branches.getLast?.any (·.condition.isSome)

/-- Links an element outside the root. -/
def addTopLevel (a : Assembly) (root id : ElementId) (e : Element) : Assembly :=
  if e.directives.isBranch then
    if a.template.elements[root]?.any takesBranch then (a.warnUnstable e).addBranch root id e
    else a.warnElse e
  else if a.severalRoots then a
  else { a with severalRoots := true }.warn .multipleRoots e.span

/-- The warning about a text that an else branch drops; a space is dropped silently. -/
def droppedText (n : Node) : Option Warning :=
  match n with
  | .element _ => none
  | .expression _ text span =>
      some ⟨.textBetweenBranches (String.ofList (Text.trim text.toList)), span⟩
  | .text text span =>
      if text = " " then none
      else some ⟨.textBetweenBranches (String.ofList (Text.trim text.toList)), span⟩

/-- Takes the text off the end of an element's children, and warns about it, last text first. -/
def dropText (a : Assembly) (parent : ElementId) : Assembly :=
  match a.template.elements[parent]? with
  | none => a
  | some p =>
      let kept := p.children.popWhile Node.isText
      let dropped := (p.children.extract kept.size p.children.size).toList.reverse
      let warnings := dropped.filterMap droppedText
      { a.modify parent ({ · with children := kept }) with warnings := a.warnings ++ warnings }

/-- The last child of an element, if it is an element. -/
def lastElement? (a : Assembly) (parent : ElementId) : Option ElementId :=
  match a.template.elements[parent]?.bind (·.children.back?) with
  | some (.element id) => some id
  | _ => none

/-- Links an else branch to the element before it, dropping the text between them. -/
def addElse (a : Assembly) (parent id : ElementId) (e : Element) : Assembly :=
  let a := a.dropText parent
  match a.lastElement? parent with
  | none => a.warnElse e
  | some head =>
      if a.template.elements[head]?.any (·.directives.condition.isSome) then a.addBranch head id e
      else a.warnElse e

/-- Enters a scoped slot under its target. -/
def addSlot (a : Assembly) (parent id : ElementId) (e : Element) : Assembly :=
  let target := e.directives.slotTarget.getD Element.defaultSlot
  a.modify parent (·.update fun d =>
    { d with isPlain := false, scopedSlots := Assoc.set target id d.scopedSlots })

/-- Adds a child. -/
def addChild (a : Assembly) (parent : ElementId) (n : Node) : Assembly :=
  a.modify parent fun p => { p with children := p.children.push n }

/-- Links an element inside `parent`. -/
def addInside (a : Assembly) (parent id : ElementId) (e : Element) : Assembly :=
  if e.directives.isBranch then a.addElse parent id e
  else if e.directives.slotScope.isSome then a.addSlot parent id e
  else a.addChild parent (.element id)

/-- Links a new element where it stands. -/
def link (a : Assembly) (id : ElementId) (e : Element) : Assembly :=
  match a.enclosing, a.template.root with
  | parent :: _, _ => a.addInside parent id e
  | [], none => a.addRoot id e
  | [], some root => a.addTopLevel root id e

/-! ## Events -/

/-- Opens an element. -/
def openElement (options : Options) (a : Assembly) (tag : StartTag) (unary : Bool) :
    Except MemberPath.Error Assembly :=
  let id := a.template.elements.size
  match Element.ofStartTag options a.template id a.enclosing.head? tag with
  | .error error => .error error
  | .ok (e, warnings) =>
      let a := { a with template := a.template.push e, warnings := a.warnings ++ warnings }
      let a := a.link id e
      .ok (if unary then a else { a with enclosing := id :: a.enclosing })

/-- Closes the innermost element: a space at its end goes, and its span grows to the end tag. -/
def closeElement (a : Assembly) (span : Span) : Assembly :=
  match a.enclosing with
  | [] => a
  | id :: outer =>
      { a with enclosing := outer }.modify id fun e =>
        { e with
          children := if e.children.back?.any Node.isSpace then e.children.pop else e.children
          span := e.span.cover span }

/-- The text that a run of text adds to an element, if any. -/
def textIn? (options : Options) (e : Element) (content : String) : Option String :=
  if content.toList.all Text.isBlank then
    if options.preserveWhitespace ∧ ¬e.children.isEmpty then some " " else none
  else if Tag.isVerbatim e.tag then some content
  else some (String.ofList (Reference.decodeText content.toList))

/-- Adds text to an element; of two spaces in a row one is kept. -/
def addText (options : Options) (text : String) (span : Span) (e : Element) : Element :=
  if text = " " then
    if e.children.back?.any Node.isSpace then e
    else { e with children := e.children.push (.text text span) }
  else match Interpolated.parse? options.marks text with
    | some parsed => { e with children := e.children.push (.expression parsed text span) }
    | none => { e with children := e.children.push (.text text span) }

/-- Reports text outside the root, unless it is blank or all there is in a source of `size`
bytes. -/
def textOutside (size : Nat) (a : Assembly) (content : String) (span : Span) : Assembly :=
  let trimmed := Text.trim content.toList
  if trimmed = [] ∨ (a.template.root = none ∧ Text.byteLength content.toList = size) then a
  else a.warn (.textOutsideRoot (String.ofList trimmed)) span

/-- Adds a run of text. -/
def readText (options : Options) (size : Nat) (a : Assembly) (content : String) (span : Span) :
    Assembly :=
  match a.enclosing with
  | [] => a.textOutside size content span
  | parent :: _ =>
      match a.template.elements[parent]?.bind (textIn? options · content) with
      | none => a
      | some text => a.modify parent (addText options text span)

/-- Takes in one event of a source of `size` bytes. -/
def feed (options : Options) (size : Nat) (a : Assembly) :
    Event → Except MemberPath.Error Assembly
  | .opened tag unary => a.openElement options tag unary
  | .closed _ span => .ok (a.closeElement span)
  | .text content span => .ok (a.readText options size content span)
  | .warned warning => .ok { a with warnings := a.warnings.push warning }

/-- Reports a source without a root. -/
def finish (size : Nat) (a : Assembly) : Assembly :=
  match a.template.root with
  | none => a.warn .noRoot ⟨0, size⟩
  | some _ => a

end Assembly

/-- A template and the warnings raised while reading it, in order. -/
structure Parsed where
  template : Template
  warnings : List Warning
  deriving DecidableEq, Repr

/-- Reads a source into a template. -/
def parse (options : Options) (source : String) : Except MemberPath.Error Parsed :=
  let size := Text.byteLength source.toList
  match (scan source).foldlM (Assembly.feed options size) {} with
  | .error error => .error error
  | .ok a =>
      let a := a.finish size
      .ok { template := a.template, warnings := a.warnings.toList }

end TemplateMarkup
