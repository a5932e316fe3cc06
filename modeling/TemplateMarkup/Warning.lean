import TemplateMarkup.Span

/-!
# Warnings

No fault of a template stops its reading: each is reported as a warning, a kind with the words
it needs and the span it is about. `Kind.code` is the stable name of a kind, `Kind.message` its
wording.
-/

namespace TemplateMarkup
namespace Warning

inductive Kind where
  /-- The rest of the source starts like a tag or a declaration and is none. -/
  | malformedTag (fragment : String)
  /-- An element was still open at the end tag of an ancestor, or at the end of the source. -/
  | missingEndTag (tag : String)
  /-- A start tag ended the element before it. -/
  | implicitlyClosed (tag closer : String)
  /-- A loop directive that is no loop header. -/
  | invalidLoop (expression : String)
  /-- An else branch that follows no conditional element; `condition` is that of an else-if. -/
  | elseWithoutIf (condition : Option String) (tag : String)
  /-- Text between two branches of a conditional chain. -/
  | textBetweenBranches (text : String)
  /-- A second element outside the root. -/
  | multipleRoots
  /-- A root that may stand for several nodes: a tag or a loop. -/
  | unstableRoot (reason : String)
  /-- No element at all. -/
  | noRoot
  /-- Text outside the root. -/
  | textOutsideRoot (text : String)
  /-- A key on a `template` wrapper. -/
  | keyedTemplate
  /-- Interpolation in a literal attribute. -/
  | interpolationInAttribute (name value : String)
  /-- A model bound to the item of a loop around it. -/
  | modelOnLoopItem (tag item : String)
  /-- A handler that is both passive and preventing. -/
  | passiveWithPrevent
  deriving DecidableEq, Repr

namespace Kind

/-- The stable name of a kind of warning. -/
def code : Kind → String
  | malformedTag _ => "malformed-tag"
  | missingEndTag _ => "missing-end-tag"
  | implicitlyClosed _ _ => "implicitly-closed"
  | invalidLoop _ => "invalid-for-expression"
  | elseWithoutIf _ _ => "else-without-if"
  | textBetweenBranches _ => "text-between-conditions"
  | multipleRoots => "multiple-roots"
  | unstableRoot _ => "unstable-root"
  | noRoot => "no-root-element"
  | textOutsideRoot _ => "text-outside-root"
  | keyedTemplate => "keyed-template"
  | interpolationInAttribute _ _ => "interpolation-in-attribute"
  | modelOnLoopItem _ _ => "model-on-loop-alias"
  | passiveWithPrevent => "passive-with-prevent"

/-- What the reader of a report is told. -/
def message : Kind → String
  | malformedTag fragment => "mal-formatted tag at end of template: \"" ++ fragment ++ "\""
  | missingEndTag tag => "tag <" ++ tag ++ "> has no matching end tag."
  | implicitlyClosed tag closer =>
      "tag <" ++ tag ++ "> was implicitly closed by <" ++ closer ++ ">."
  | invalidLoop expression => "invalid v-for expression: " ++ expression
  | elseWithoutIf condition tag =>
      let used := match condition with
        | some expression => "v-else-if=\"" ++ expression ++ "\""
        | none => "v-else=\"\""
      used ++ " used on element <" ++ tag ++ "> without corresponding v-if."
  | textBetweenBranches text =>
      "text \"" ++ text ++ "\" between v-if and v-else(-if) will be ignored."
  | multipleRoots =>
      "Component template should contain exactly one root element. " ++
      "If you are using v-if on multiple elements, use v-else-if to chain them instead."
  | unstableRoot reason =>
      "Cannot use " ++ reason ++
      " as component root element because it may contain multiple nodes."
  | noRoot => "Component template requires a root element, rather than just text."
  | textOutsideRoot text => "text \"" ++ text ++ "\" outside root element will be ignored."
  | keyedTemplate => "<template> cannot be keyed. Place the key on real elements instead."
  | interpolationInAttribute name value =>
      name ++ "=\"" ++ value ++ "\": Interpolation inside attributes has been removed. " ++
      "Use v-bind or the colon shorthand instead."
  | modelOnLoopItem tag item =>
      "<" ++ tag ++ " v-model=\"" ++ item ++
      "\">: You are binding v-model directly to a v-for iteration alias. " ++
      "This will not be able to modify the v-for source array."
  | passiveWithPrevent =>
      "passive and prevent can't be used together. " ++
      "Passive handler can't prevent default event."

end Kind
end Warning

/-- A fault and the part of the source it is about. -/
structure Warning where
  kind : Warning.Kind
  span : Span
  deriving DecidableEq, Repr

namespace Warning

def code (w : Warning) : String :=
  w.kind.code

def message (w : Warning) : String :=
  w.kind.message

def shift (delta : Nat) (w : Warning) : Warning :=
  { w with span := w.span.shift delta }

end Warning
end TemplateMarkup
