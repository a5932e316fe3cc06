import TemplateMarkup.Text.Basic

/-!
# Loop headers

`item in items`, `(item, index) in items` or `(value, key, index) of object`: what a loop goes
through and the names it gives to what it finds.
-/

namespace TemplateMarkup

structure LoopHeader where
  source : String
  item : String
  iterator1 : Option String
  iterator2 : Option String
  deriving DecidableEq, Repr

namespace LoopHeader

/-- What follows a separator: blanks, `in` or `of`, and a blank. -/
def afterSeparator? (cs : List Char) : Option (List Char) :=
  match cs with
  | [] => none
  | c :: _ =>
      if Text.isBlank c then
        match cs.dropWhile Text.isBlank with
        | 'i' :: 'n' :: b :: rest => if Text.isBlank b then some rest else none
        | 'o' :: 'f' :: b :: rest => if Text.isBlank b then some rest else none
        | _ => none
      else none

/-- Collects the left side into `front`, newest first, up to the first separator. -/
def splitOnto (front : List Char) : List Char → Option (List Char × List Char)
  | [] => none
  | c :: cs =>
      match afterSeparator? (c :: cs) with
      | some source => some (front.reverse, source)
      | none => splitOnto (c :: front) cs

/-- The characters an iterator may have. -/
def isIteratorChar (c : Char) : Bool :=
  !(c == ',' || c == '\x7d' || c == ']')

/-- Reads one or two iterators that run to the end; the comma before the first has been read. -/
def readIterators? (cs : List Char) : Option (List Char × Option (List Char)) :=
  let first := cs.takeWhile isIteratorChar
  match cs.dropWhile isIteratorChar with
  | [] => some (first, none)
  | ',' :: cs => if cs.all isIteratorChar then some (first, some cs) else none
  | _ => none

/-- Collects the item into `front`, newest first, up to the first comma that only iterators
follow. -/
def itemOnto (front : List Char) : List Char → Option (List Char × List Char × Option (List Char))
  | [] => none
  | c :: cs =>
      match if c = ',' then readIterators? cs else none with
      | some (first, second) => some (front.reverse, first, second)
      | none => itemOnto (c :: front) cs

/-- Takes off one parenthesis at each end, if there is one. -/
def dropParens (cs : List Char) : List Char :=
  let cs := match cs with
    | '(' :: cs => cs
    | cs => cs
  if cs.getLast? = some ')' then cs.dropLast else cs

/-- Reads a loop header; `none` without a separator. -/
def parse? (header : String) : Option LoopHeader :=
  match splitOnto [] header.toList with
  | none => none
  | some (left, source) =>
      let source := String.ofList (Text.trim source)
      let left := dropParens (Text.trim left)
      match itemOnto [] left with
      | none => some { source, item := String.ofList left, iterator1 := none, iterator2 := none }
      | some (item, first, second) =>
          some
            { source
              item := String.ofList (Text.trim item)
              iterator1 := some (String.ofList (Text.trim first))
              iterator2 := (second.filter (· ≠ [])).map fun cs => String.ofList (Text.trim cs) }

end LoopHeader
end TemplateMarkup
