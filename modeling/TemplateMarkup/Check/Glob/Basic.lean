import TemplateMarkup.Text.Basic

/-!
# Tokens of globs

Globs are patterns for paths. `?` stands for any byte, `*` for any bytes, slashes among them; `**`
between slashes, or between a slash and an end, stands for any directories; `[…]` is a class of
bytes and `{…,…}` a choice. A backslash makes the next character literal.

* `Token` is a part of a pattern,
* `Shape` measures how long a sequence of tokens is and how deep it nests.
-/

namespace TemplateMarkup
namespace Glob

inductive Token where
  | literal (c : Char)
  /-- `?` -/
  | any
  /-- `*` -/
  | star
  /-- Directories at the start: nothing, or anything that ends in a slash. -/
  | leading
  /-- Directories at the end: a slash and anything behind it. -/
  | trailing
  /-- Directories in the middle: a slash, or anything between two slashes. -/
  | between
  | oneOf (negated : Bool) (ranges : List (Char × Char))
  | choice (branches : List (List Token))
  deriving Repr

inductive Error where
  | unclosedClass
  | invalidRange (first last : Char)
  | unopenedChoice
  | unclosedChoice
  | danglingEscape
  | tooDeep
  deriving DecidableEq, Repr

/-! ## Shapes -/

/-- The shape of a sequence: the number of its items, where each byte of a character is an item,
and the depth of the deepest item. -/
structure Shape where
  items : Nat
  depth : Nat
  deriving DecidableEq, Repr

namespace Shape

def empty : Shape :=
  { items := 0, depth := 0 }

/-- One sequence behind another. -/
def append (s t : Shape) : Shape :=
  { items := s.items + t.items, depth := max s.depth t.depth }

/-- The depth of a sequence: several items are one level above the deepest of them. -/
def level (s : Shape) : Nat :=
  if s.items ≤ 1 then s.depth else s.depth + 1

/-- A choice between sequences of the given levels: one level for the choice, and one for its
branches if there are several. A choice of nothing is nothing. -/
def choice : List Nat → Shape
  | [] => empty
  | [level] => { items := 1, depth := level + 1 }
  | level :: levels => { items := 1, depth := levels.foldl max level + 2 }

end Shape

/-- The number of members of a class; each byte of a character is a member, and the two bytes that
bound a range are one. -/
def memberCount (ranges : List (Char × Char)) : Nat :=
  ranges.foldl
    (fun n range =>
      if range.1 = range.2 then n + range.1.utf8Size
      else n + range.1.utf8Size + range.2.utf8Size - 1)
    0

mutual

/-- A repetition is one level and a class one or two. Directories are a choice between two
sequences with a repetition in them. -/
def Token.shape : Token → Shape
  | .literal c => { items := c.utf8Size, depth := 0 }
  | .any => { items := 1, depth := 0 }
  | .star => { items := 1, depth := 1 }
  | .leading => { items := 1, depth := 4 }
  | .trailing => { items := 2, depth := 1 }
  | .between => { items := 1, depth := 4 }
  | .oneOf _ ranges => { items := 1, depth := if memberCount ranges ≤ 1 then 1 else 2 }
  | .choice branches => Shape.choice (branchLevels branches)

/-- The shape of a sequence of tokens. -/
def sequenceShape : List Token → Shape
  | [] => .empty
  | t :: tokens => t.shape.append (sequenceShape tokens)

/-- The levels of the branches that are not empty. -/
def branchLevels : List (List Token) → List Nat
  | [] => []
  | branch :: branches =>
      let shape := sequenceShape branch
      if shape.items = 0 then branchLevels branches else shape.level :: branchLevels branches

end

/-- How deep a pattern may nest. -/
def maxDepth : Nat := 250

/-- The depth of a whole pattern, which is a sequence between the two ends of a path. -/
def depth (tokens : List Token) : Nat :=
  (sequenceShape tokens).depth + 1

/-- Whether a sequence stands for nothing at all, as an empty choice does. -/
def isVoid (tokens : List Token) : Bool :=
  (sequenceShape tokens).items == 0

end Glob
end TemplateMarkup
