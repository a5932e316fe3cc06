import TemplateMarkup.Text.Quoted

/-!
# JSON values

The values that reports are written as, and their two forms: `compact`, on one line without
blanks, and `pretty`, one item a line with two spaces of indentation for each level. The members of
an object keep their order.
-/

namespace TemplateMarkup

inductive Json where
  | null
  | bool (value : Bool)
  | number (value : Nat)
  | string (value : String)
  | array (items : List Json)
  | object (members : List (String × Json))
  deriving Repr

namespace Json

/-- A string, or null. -/
def ofText? : Option String → Json
  | some s => string s
  | none => null

/-- A list of strings. -/
def ofTexts (texts : List String) : Json :=
  array (texts.map string)

/-! ## On one line -/

mutual

/-- Writes a value behind `out`. -/
def writeCompact (out : String) : Json → String
  | null => out ++ "null"
  | bool true => out ++ "true"
  | bool false => out ++ "false"
  | number n => out ++ Nat.repr n
  | string s => out ++ Text.quote s
  | array [] => out ++ "[]"
  | array (item :: items) => writeCompactItems (writeCompact (out ++ "[") item) items ++ "]"
  | object [] => out ++ "\x7b\x7d"
  | object ((name, value) :: members) =>
      writeCompactMembers (writeCompact (out ++ "\x7b" ++ Text.quote name ++ ":") value) members
        ++ "\x7d"

/-- Writes further items, each behind a comma. -/
def writeCompactItems (out : String) : List Json → String
  | [] => out
  | item :: items => writeCompactItems (writeCompact (out ++ ",") item) items

/-- Writes further members, each behind a comma. -/
def writeCompactMembers (out : String) : List (String × Json) → String
  | [] => out
  | (name, value) :: members =>
      writeCompactMembers (writeCompact (out ++ "," ++ Text.quote name ++ ":") value) members

end

def compact (j : Json) : String :=
  j.writeCompact ""

/-! ## One item a line -/

/-- A line break and the indentation of a level. -/
def newLine (level : Nat) : String :=
  "\n" ++ "".pushn ' ' (2 * level)

mutual

/-- Writes a value behind `out`, which has reached `level`. -/
def writePretty (out : String) (level : Nat) : Json → String
  | null => out ++ "null"
  | bool true => out ++ "true"
  | bool false => out ++ "false"
  | number n => out ++ Nat.repr n
  | string s => out ++ Text.quote s
  | array [] => out ++ "[]"
  | array (item :: items) =>
      writePrettyItems (writePretty (out ++ "[" ++ newLine (level + 1)) (level + 1) item)
        (level + 1) items ++ newLine level ++ "]"
  | object [] => out ++ "\x7b\x7d"
  | object ((name, value) :: members) =>
      writePrettyMembers
        (writePretty (out ++ "\x7b" ++ newLine (level + 1) ++ Text.quote name ++ ": ")
          (level + 1) value)
        (level + 1) members ++ newLine level ++ "\x7d"

/-- Writes further items, each on a line of its own. -/
def writePrettyItems (out : String) (level : Nat) : List Json → String
  | [] => out
  | item :: items =>
      writePrettyItems (writePretty (out ++ "," ++ newLine level) level item) level items

/-- Writes further members, each on a line of its own. -/
def writePrettyMembers (out : String) (level : Nat) : List (String × Json) → String
  | [] => out
  | (name, value) :: members =>
      writePrettyMembers
        (writePretty (out ++ "," ++ newLine level ++ Text.quote name ++ ": ") level value)
        level members

end

def pretty (j : Json) : String :=
  j.writePretty "" 0

end Json
end TemplateMarkup
