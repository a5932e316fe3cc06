import TemplateMarkup.Text.Basic

/-!
# Member paths

A path such as `a.b`, `a[b]` or `a["b"].c` is split at its last member access, so that a value can
be assigned to the member. Brackets in quoted strings do not count.

The search for brackets starts at the second character. If it finds none in a path that holds a
bracket and ends in one, the key starts one byte into the path, which is inside the first character
unless that is a single byte.
-/

namespace TemplateMarkup

structure MemberPath where
  /-- What the member belongs to; the whole path if there is no member. -/
  object : String
  /-- The member, as an expression. -/
  key : Option String
  deriving DecidableEq, Repr

namespace MemberPath

inductive Error where
  /-- The key would start inside a character. -/
  | insideCharacter
  deriving DecidableEq, Repr

/-- How far the search for the last bracketed member has come. -/
structure Search where
  /-- All that is read, newest first. -/
  front : List Char
  /-- The quote that the string being read ends with. -/
  quote : Option Char := none
  /-- The brackets open. -/
  depth : Nat := 0
  /-- What stands before the last outermost bracket, newest first. -/
  object : Option (List Char) := none
  /-- What that bracket holds, newest first. -/
  inside : List Char := []
  deriving DecidableEq, Repr

namespace Search

/-- Adds `c` to what is read, and to the bracket if one is open. -/
def keep (s : Search) (c : Char) : Search :=
  { s with
    front := c :: s.front
    inside := if s.depth = 0 then s.inside else c :: s.inside }

def step (s : Search) (c : Char) : Search :=
  match s.quote with
  | some mark => { s.keep c with quote := if c = mark then none else some mark }
  | none =>
      if c = '"' ∨ c = '\'' then { s.keep c with quote := some c }
      else if c = '[' then
        if s.depth = 0 then
          { s with front := c :: s.front, depth := 1, object := some s.front, inside := [] }
        else { s.keep c with depth := s.depth + 1 }
      else if c = ']' then
        if s.depth ≤ 1 then { s with front := c :: s.front, depth := 0 }
        else { s.keep c with depth := s.depth - 1 }
      else s.keep c

/-- The key: what the last bracket holds, and nothing if it is not closed. -/
def key (s : Search) : List Char :=
  if s.depth = 0 then s.inside.reverse else []

end Search

/-- Splits a path that ends in a bracket. -/
def splitBracket (cs : List Char) : Except Error MemberPath :=
  match cs with
  | [] => .ok { object := "", key := some "" }
  | c :: cs =>
      let search := cs.foldl Search.step { front := [c] }
      match search.object with
      | some object =>
          .ok { object := String.ofList object.reverse, key := some (String.ofList search.key) }
      | none =>
          if c.utf8Size = 1 then .ok { object := "", key := some "" }
          else .error .insideCharacter

/-- Splits a path at its last point. -/
def splitPoint (cs : List Char) : MemberPath :=
  match Text.breakOn? [ '.' ] cs.reverse with
  | some (name, object) =>
      { object := String.ofList object.reverse
        key := some (String.ofList ('"' :: (name.reverse ++ ['"']))) }
  | none => { object := String.ofList cs, key := none }

/-- Splits a path, blanks around it apart, at its last member access. -/
def parse (path : String) : Except Error MemberPath :=
  let cs := Text.trim path.toList
  if cs.contains '[' ∧ cs.getLast? = some ']' then splitBracket cs else .ok (splitPoint cs)

/-- The code that assigns `value` to `path`: a member is set through its object. -/
def assign (path value : String) : Except Error String :=
  match parse path with
  | .error e => .error e
  | .ok { object, key := some key } =>
      .ok ("$set(" ++ object ++ ", " ++ key ++ ", " ++ value ++ ")")
  | .ok { key := none, .. } => .ok (path ++ "=" ++ value)

end MemberPath
end TemplateMarkup
