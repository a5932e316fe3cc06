import TemplateMarkup.Json.Basic
import TemplateMarkup.Template.Basic

/-!
# Templates as JSON

The form in which a template is dumped: every field is there, in a fixed order.
-/

namespace TemplateMarkup

def Span.toJson (s : Span) : Json :=
  .object [("start", .number s.start), ("end", .number s.stop)]

def Attribute.toJson (a : Attribute) : Json :=
  .object [("name", .string a.name), ("value", .string a.value), ("span", a.span.toJson)]

def Piece.toJson : Piece → Json
  | literal text => .object [("literal", .string text)]
  | binding expression => .object [("binding", .string expression)]

def Node.toJson : Node → Json
  | element id => .object [("kind", .string "element"), ("node", .number id)]
  | expression parsed content span =>
      .object
        [("kind", .string "expression"),
          ("node", .object
            [("expression", .string parsed.expression),
              ("tokens", .array (parsed.pieces.map Piece.toJson)),
              ("text", .string content), ("span", span.toJson)])]
  | text content span =>
      .object
        [("kind", .string "text"),
          ("node", .object [("text", .string content), ("span", span.toJson)])]

def LoopHeader.toJson (l : LoopHeader) : Json :=
  .object
    [("source", .string l.source), ("alias", .string l.item),
      ("iterator1", .ofText? l.iterator1), ("iterator2", .ofText? l.iterator2)]

def Branch.toJson (b : Branch) : Json :=
  .object [("expression", .ofText? b.condition), ("block", .number b.block)]

def Binding.toJson (b : Binding) : Json :=
  .object [("name", .string b.name), ("value", .string b.value)]

def CustomDirective.toJson (d : CustomDirective) : Json :=
  .object
    [("name", .string d.name), ("rawName", .string d.rawName), ("value", .string d.value),
      ("arg", .ofText? d.argument), ("modifiers", .ofTexts d.modifiers)]

def Handler.toJson (h : Handler) : Json :=
  .object
    [("name", .string h.name), ("value", .string h.value), ("modifiers", .ofTexts h.modifiers),
      ("native", .bool h.native)]

def Directives.toJson (d : Directives) : Json :=
  .object
    [("forLoop", match d.loop with
        | some loop => loop.toJson
        | none => .null),
      ("ifExpression", .ofText? d.condition),
      ("isElse", .bool d.isElse),
      ("elseIfExpression", .ofText? d.elseCondition),
      ("ifConditions", .array (d.branches.map Branch.toJson)),
      ("isOnce", .bool d.isOnce),
      ("key", .ofText? d.key),
      ("ref", .ofText? d.ref),
      ("refInFor", .bool d.refInLoop),
      ("slotName", .ofText? d.slotName),
      ("slotTarget", .ofText? d.slotTarget),
      ("slotScope", .ofText? d.slotScope),
      ("scopedSlots", .object (d.scopedSlots.map fun (name, id) => (name, .number id))),
      ("component", .ofText? d.component),
      ("isInlineTemplate", .bool d.isInlineTemplate),
      ("isPlain", .bool d.isPlain),
      ("hasBindings", .bool d.hasBindings),
      ("props", .array (d.props.map Binding.toJson)),
      ("attrs", .array (d.attrs.map Binding.toJson)),
      ("directives", .array (d.custom.map CustomDirective.toJson)),
      ("handlers", .array (d.handlers.map Handler.toJson))]

/-- An index, or null. -/
def idJson : Option ElementId → Json
  | some id => .number id
  | none => .null

def Element.toJson (e : Element) : Json :=
  .object
    [("tag", .string e.tag),
      ("attrsList", .array (e.attributes.map Attribute.toJson)),
      ("attrsMap", .object (e.attributeMap.map fun (name, value) => (name, .string value))),
      ("parent", idJson e.parent),
      ("children", .array (e.children.toList.map Node.toJson)),
      ("directives", e.directives.toJson),
      ("span", e.span.toJson)]

def Template.toJson (t : Template) : Json :=
  .object
    [("elements", .array (t.elements.toList.map Element.toJson)), ("root", idJson t.root)]

end TemplateMarkup
