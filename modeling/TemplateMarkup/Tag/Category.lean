/-!
# Categories of elements

Which elements have no content, keep their content as raw text, may lack an end tag, and so on.
Names are compared without regard to the case of ASCII letters.
-/

namespace TemplateMarkup
namespace Tag

/-- Two names that differ at most in the case of ASCII letters. -/
def sameName (a b : String) : Bool :=
  a.toLower == b.toLower

/-- Elements whose content is taken as it stands, up to their end tag. -/
def rawTextTags : List String :=
  ["script", "style", "textarea"]

/-- Elements that have neither content nor an end tag. -/
def voidTags : List String :=
  ["area", "base", "br", "col", "embed", "frame", "hr", "img", "input", "isindex", "keygen",
    "link", "meta", "param", "source", "track", "wbr"]

/-- Elements that end where an element of the same name starts. -/
def leftOpenTags : List String :=
  ["colgroup", "dd", "dt", "li", "options", "p", "td", "tfoot", "th", "thead", "tr", "source"]

/-- Elements that cannot stand in a paragraph and so end one. -/
def nonPhrasingTags : List String :=
  ["address", "article", "aside", "base", "blockquote", "body", "caption", "col", "colgroup",
    "dd", "details", "dialog", "div", "dl", "dt", "fieldset", "figcaption", "figure", "footer",
    "form", "h1", "h2", "h3", "h4", "h5", "h6", "head", "header", "hgroup", "hr", "html",
    "legend", "li", "menuitem", "meta", "optgroup", "option", "param", "rp", "rt", "source",
    "style", "summary", "tbody", "td", "tfoot", "th", "thead", "title", "tr", "track"]

def isRawText (tag : String) : Bool :=
  rawTextTags.contains tag.toLower

/-- Elements whose raw text keeps the marks of comments and character data around it. -/
def keepsWrappers (tag : String) : Bool :=
  ["script", "style", "noscript"].contains tag.toLower

/-- Elements whose text holds no character references. -/
def isVerbatim (tag : String) : Bool :=
  ["script", "style"].contains tag.toLower

def isVoid (tag : String) : Bool :=
  voidTags.contains tag.toLower

def canBeLeftOpen (tag : String) : Bool :=
  leftOpenTags.contains tag.toLower

def isNonPhrasing (tag : String) : Bool :=
  nonPhrasingTags.contains tag.toLower

/-- Elements that drop a line feed right after their start tag. -/
def dropsFirstNewline (tag : String) : Bool :=
  ["pre", "textarea"].contains tag.toLower

/-- Elements whose `value` is a property of the element. -/
def valueTags : List String :=
  ["input", "textarea", "option", "select", "progress"]

/-- Whether `name` is bound as a property; `type?` is the declared type of the element. Here
case matters. -/
def bindsProperty (tag : String) (type? : Option String) (name : String) : Bool :=
  (name == "value" && valueTags.contains tag && type? != some "button") ||
  (name == "selected" && tag == "option") ||
  (name == "checked" && tag == "input") ||
  (name == "muted" && tag == "video")

end Tag
end TemplateMarkup
