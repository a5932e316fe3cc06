import TemplateMarkup.Expression.MemberPath
import TemplateMarkup.Tag.Category
import TemplateMarkup.Template.Assoc
import TemplateMarkup.Template.AttributeRole
import TemplateMarkup.Template.Basic
import TemplateMarkup.Text.CamelCase
import TemplateMarkup.Warning

/-!
# Reading an element

`Element.ofStartTag` turns a start tag into an element. Structural directives claim their
attributes first, in a fixed order; each remaining attribute is then added by its role.
-/

namespace TemplateMarkup
namespace Element

/-! ## Claiming attributes -/

/-- A new element, none of whose attributes is claimed. -/
def unread (tag : StartTag) (parent : Option ElementId) : Element :=
  { tag := tag.name
    attributes := tag.attributes
    attributeMap := Assoc.ofEntries (tag.attributes.map fun a => (a.name, a.value))
    parent
    span := tag.span }

/-- Takes the attributes named `name` off the element; the value is the last one. -/
def claim (e : Element) (name : String) : Option String × Element :=
  match e.attributeMap.lookup name with
  | none => (none, e)
  | some value =>
      (some value,
        { e with
          attributes := e.attributes.filter (·.name ≠ name)
          attributeMap := Assoc.erase name e.attributeMap })

/-- Claims `:name`, or `v-bind:name` if that is missing or empty. -/
def claimDynamic (e : Element) (name : String) : Option String × Element :=
  match e.claim (":" ++ name) with
  | (none, e) => e.claim ("v-bind:" ++ name)
  | (some value, e) => if value = "" then e.claim ("v-bind:" ++ name) else (some value, e)

/-- Claims a binding of `name`: an expression with its filters, or the literal attribute as a
string literal. -/
def claimBinding (e : Element) (name : String) : Option String × Element :=
  match e.claimDynamic name with
  | (some value, e) => (some (FilterChain.compile value), e)
  | (none, e) =>
      let (value, e) := e.claim name
      (value.map Text.quote, e)

/-- An empty value counts as none. -/
def nonEmpty (value : Option String) : Option String :=
  value.filter (· ≠ "")

def update (e : Element) (f : Directives → Directives) : Element :=
  { e with directives := f e.directives }

/-! ## Structural directives -/

/-- `v-for`. -/
def readLoop (e : Element) : Element × List Warning :=
  let (value, e) := e.claim "v-for"
  match nonEmpty value with
  | none => (e, [])
  | some header =>
      match LoopHeader.parse? header with
      | some loop => (e.update ({ · with loop := some loop }), [])
      | none => (e, [⟨.invalidLoop header, e.span⟩])

/-- `v-if`, or else `v-else` and `v-else-if`. A condition starts a chain, with the element `id`
itself as its first branch. -/
def readCondition (id : ElementId) (e : Element) : Element :=
  let (value, e) := e.claim "v-if"
  match nonEmpty value with
  | some condition =>
      e.update fun d =>
        { d with
          condition := some condition
          branches := d.branches ++ [⟨some condition, id⟩] }
  | none =>
      let (isElse, e) := e.claim "v-else"
      let (elseCondition, e) := e.claim "v-else-if"
      e.update fun d =>
        { d with
          isElse := isElse.isSome
          elseCondition := nonEmpty elseCondition }

/-- `v-once`. -/
def readOnce (e : Element) : Element :=
  let (value, e) := e.claim "v-once"
  e.update ({ · with isOnce := value.isSome })

/-- `key`. -/
def readKey (e : Element) : Element × List Warning :=
  let (value, e) := e.claimBinding "key"
  match nonEmpty value with
  | none => (e, [])
  | some key =>
      (e.update ({ · with key := some key }),
        if e.tag = "template" then [⟨.keyedTemplate, e.span⟩] else [])

/-- An element is plain as long as it has neither a key nor any other attribute. -/
def readPlain (e : Element) : Element :=
  e.update fun d => { d with isPlain := d.key.isNone && e.attributes.isEmpty }

/-- `ref`, and whether it stands in a loop. -/
def readRef (t : Template) (e : Element) : Element :=
  let (value, e) := e.claimBinding "ref"
  match nonEmpty value with
  | none => e
  | some ref =>
      e.update fun d =>
        { d with
          ref := some ref
          refInLoop := d.loop.isSome || !(t.loopsAround e.parent).isEmpty }

/-- Binds an attribute. -/
def addAttr (e : Element) (name value : String) : Element :=
  e.update fun d => { d with attrs := d.attrs ++ [⟨name, value⟩], isPlain := false }

/-- Binds a property. -/
def addProp (e : Element) (name value : String) : Element :=
  e.update fun d => { d with props := d.props ++ [⟨name, value⟩], isPlain := false }

/-- The slot that content without a target goes to. -/
def defaultSlot : String :=
  "\"default\""

/-- Claims the scope of a scoped slot; a `template` may also name it `scope`. -/
def claimScope (e : Element) : Option String × Element :=
  if e.tag = "template" then
    match e.claim "scope" with
    | (none, e) => e.claim "slot-scope"
    | (some scope, e) => if scope = "" then e.claim "slot-scope" else (some scope, e)
  else e.claim "slot-scope"

/-- The slot that content goes to. -/
def readTarget (e : Element) : Element :=
  let (value, e) := e.claimBinding "slot"
  match nonEmpty value with
  | none => e
  | some target =>
      let target := if target = "\"\"" then defaultSlot else target
      let e :=
        if e.tag ≠ "template" ∧ e.directives.slotScope = none then e.addAttr "slot" target else e
      e.update ({ · with slotTarget := some target })

/-- The name of a `slot`; the scope and the target of content for one. -/
def readSlot (e : Element) : Element :=
  if e.tag = "slot" then
    let (name, e) := e.claimBinding "name"
    e.update ({ · with slotName := name })
  else
    let (scope, e) := e.claimScope
    (e.update ({ · with slotScope := nonEmpty scope })).readTarget

/-- `is` and `inline-template`. -/
def readComponent (e : Element) : Element :=
  let (component, e) := e.claimBinding "is"
  let (inlineTemplate, e) := e.claim "inline-template"
  e.update ({ · with component := component, isInlineTemplate := inlineTemplate.isSome })

/-! ## The remaining attributes -/

/-- The handler of an event. Some modifiers change its name instead of staying with it. -/
def handler (event value : String) (modifiers : List String) : Handler :=
  let (event, modifiers) :=
    if event = "click" then
      if "right" ∈ modifiers then ("contextmenu", modifiers.erase "right")
      else if "middle" ∈ modifiers then ("mouseup", modifiers)
      else (event, modifiers)
    else (event, modifiers)
  let event := if "capture" ∈ modifiers then "!" ++ event else event
  let event := if "once" ∈ modifiers then "~" ++ event else event
  let event := if "passive" ∈ modifiers then "&" ++ event else event
  { name := event
    value
    modifiers := modifiers.filter (· ∉ ["capture", "once", "passive", "native"])
    native := "native" ∈ modifiers }

def addHandler (e : Element) (h : Handler) : Element :=
  e.update fun d => { d with handlers := d.handlers ++ [h], isPlain := false }

/-- A handler cannot be passive and prevent the default. -/
def handlerWarnings (e : Element) (modifiers : List String) : List Warning :=
  if "prevent" ∈ modifiers ∧ "passive" ∈ modifiers then [⟨.passiveWithPrevent, e.span⟩] else []

def addCustom (e : Element) (directive : CustomDirective) : Element :=
  e.update fun d => { d with custom := d.custom ++ [directive], isPlain := false }

/-- Whether `name` has to be bound as a property of the element. -/
def needsProperty (e : Element) (name : String) : Bool :=
  e.directives.component.isNone && Tag.bindsProperty e.tag (e.attributeMap.lookup "type") name

/-- Adds a literal attribute. -/
def addLiteral (e : Element) (a : Attribute) : Element :=
  let e := e.addAttr a.name (Text.quote a.value)
  if a.name = "muted" ∧ e.needsProperty "muted" then e.addProp "muted" "true" else e

/-- The name a bound attribute gets from its modifiers. -/
def boundName (name : String) (modifiers : List String) : String :=
  let name :=
    if "prop" ∈ modifiers then
      let name := Text.camelCase name
      if name = "innerHtml" then "innerHTML" else name
    else name
  if "camel" ∈ modifiers then Text.camelCase name else name

/-- Adds the handler that keeps a bound attribute up to date. -/
def addSync (e : Element) (name value : String) : Except MemberPath.Error Element :=
  match MemberPath.assign value "$event" with
  | .error error => .error error
  | .ok code => .ok (e.addHandler (handler ("update:" ++ Text.camelCase name) code []))

/-- Adds a bound attribute. -/
def addBound (e : Element) (name : String) (modifiers : List String) (value : String) :
    Except MemberPath.Error Element :=
  let value := FilterChain.compile value
  let name := boundName name modifiers
  let isProp := decide ("prop" ∈ modifiers) || e.needsProperty name
  let bind := fun (e : Element) => if isProp then e.addProp name value else e.addAttr name value
  if "sync" ∈ modifiers then (e.addSync name value).map bind else .ok (bind e)

/-- Adds an attribute by its role. -/
def addAttribute (e : Element) (a : Attribute) : Except MemberPath.Error Element :=
  match AttributeRole.ofName a.name with
  | .literal => .ok (e.addLiteral a)
  | .bound name modifiers =>
      (e.update ({ · with hasBindings := true })).addBound name modifiers a.value
  | .handler event modifiers =>
      .ok ((e.update ({ · with hasBindings := true })).addHandler (handler event a.value modifiers))
  | .custom name argument modifiers =>
      .ok ((e.update ({ · with hasBindings := true })).addCustom
        { name, rawName := a.name, value := a.value, argument, modifiers })

/-- The warnings about an attribute on its own. -/
def attributeWarnings (options : Options) (e : Element) (a : Attribute) : List Warning :=
  match AttributeRole.ofName a.name with
  | .literal =>
      if options.warnInterpolation ∧ (Interpolated.parse? options.marks a.value).isSome then
        [⟨.interpolationInAttribute a.name a.value, a.span⟩]
      else []
  | .handler _ modifiers => e.handlerWarnings modifiers
  | _ => []

/-- Whether an attribute is a model. -/
def isModel (a : Attribute) : Bool :=
  match AttributeRole.ofName a.name with
  | .custom name _ _ => name == "model"
  | _ => false

/-- The warnings about models that are bound to the item of a loop around them. -/
def modelWarnings (t : Template) (e : Element) : List Warning :=
  match e.attributes.filter isModel with
  | [] => []
  | models =>
      let loops := e.directives.loop.toList ++ t.loopsAround e.parent
      models.filterMap fun a =>
        if loops.any (·.item == a.value) then some ⟨.modelOnLoopItem e.tag a.value, a.span⟩
        else none

/-- Adds every remaining attribute. -/
def readAttributes (e : Element) : Except MemberPath.Error Element :=
  e.attributes.foldlM addAttribute e

/-- Reads a start tag into the element `id` of the template `t`, with the warnings about it. -/
def ofStartTag (options : Options) (t : Template) (id : ElementId) (parent : Option ElementId)
    (tag : StartTag) : Except MemberPath.Error (Element × List Warning) :=
  let (e, loopWarnings) := (unread tag parent).readLoop
  let (e, keyWarnings) := ((e.readCondition id).readOnce).readKey
  let e := ((e.readPlain.readRef t).readSlot).readComponent
  match e.readAttributes with
  | .error error => .error error
  | .ok read =>
      .ok (read, loopWarnings ++ keyWarnings ++
        e.attributes.flatMap (attributeWarnings options e) ++ modelWarnings t e)

end Element
end TemplateMarkup
