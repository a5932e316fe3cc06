/-!
# Camel case

`foo-bar` is written `fooBar` where a name has to be an identifier.
-/

namespace TemplateMarkup
namespace Text

/-- A hyphen disappears before an ASCII letter, digit or underscore, which becomes upper case. -/
def camelChars : List Char → List Char
  | '-' :: c :: cs =>
      if c.isAlphanum || c == '_' then c.toUpper :: camelChars cs
      else '-' :: camelChars (c :: cs)
  | c :: cs => c :: camelChars cs
  | [] => []

/-- The name in camel case. -/
def camelCase (name : String) : String :=
  String.ofList (camelChars name.toList)

end Text
end TemplateMarkup
