import TemplateMarkup.Check.Glob.Basic

/-!
# Reading globs

`Glob.parse` reads a pattern into tokens, character by character. Classes and choices have to be
closed, and a pattern may nest only so deep.
-/

namespace TemplateMarkup
namespace Glob

/-- A class that is being read: its ranges, newest first, whether any character of it is read, and
whether a hyphen waits for the end of a range. -/
structure Class where
  negated : Bool
  ranges : List (Char × Char) := []
  first : Bool := true
  inRange : Bool := false
  deriving DecidableEq, Repr

namespace Class

def add (k : Class) (c : Char) : Class :=
  { k with ranges := (c, c) :: k.ranges, first := false }

/-- Reads a character of a class that does not end it. -/
def read (k : Class) (c : Char) : Except Error Class :=
  match k.first, k.inRange, k.ranges with
  | false, true, (lo, _) :: ranges =>
      if c < lo then .error (.invalidRange lo c)
      else .ok { k with ranges := (lo, c) :: ranges, inRange := false }
  | first, _, _ => .ok (if c = '-' ∧ !first then { k with inRange := true } else k.add c)

/-- The token of a class; a hyphen at its end is one of its characters. -/
def token (k : Class) : Token :=
  .oneOf k.negated (if k.inRange then ('-', '-') :: k.ranges else k.ranges).reverse

end Class

/-- A choice that is being read: the branches that have ended and, newest first, the tokens before
the choice. -/
structure Frame where
  branches : List (List Token)
  before : List Token

/-- The reading of a pattern: the tokens of the current branch, newest first, the choices around
it, innermost first, and the class being read, if any. -/
structure Reader where
  tokens : List Token := []
  frames : List Frame := []
  inClass : Option Class := none

namespace Reader

def push (r : Reader) (t : Token) : Reader :=
  { r with tokens := t :: r.tokens }

def openChoice (r : Reader) : Reader :=
  { r with tokens := [], frames := ⟨[], r.tokens⟩ :: r.frames }

def closeChoice (r : Reader) : Except Error Reader :=
  match r.frames with
  | [] => .error .unopenedChoice
  | frame :: frames =>
      let branches := (r.tokens.reverse :: frame.branches).reverse
      .ok { r with tokens := .choice branches :: frame.before, frames }

/-- A comma separates branches inside a choice and is literal outside. -/
def readComma (r : Reader) : Reader :=
  match r.frames with
  | [] => r.push (.literal ',')
  | frame :: frames =>
      { r with
        tokens := []
        frames := { frame with branches := r.tokens.reverse :: frame.branches } :: frames }

/-- Turns the slash before `**` into directories, in the middle or at the end. -/
def mergeDirectories (r : Reader) (atEnd : Bool) : Reader :=
  match r.tokens with
  | .leading :: _ => r
  | .trailing :: _ => r
  | _ :: tokens => { r with tokens := (if atEnd then .trailing else .between) :: tokens }
  | [] => r

/-- Whether `**` behind `previous` may stand for directories. -/
def allowsDirectories (r : Reader) (previous : Option Char) : Bool :=
  previous == some '/' || (!r.frames.isEmpty && (previous == some ',' || previous == some '\x7b'))

/-- What `**` does to the reading, given what is before and behind it, and whether it takes the
slash behind it. -/
def readStars (r : Reader) (previous next : Option Char) : Reader × Bool :=
  if r.tokens.isEmpty then
    match next with
    | none => (r.push .leading, false)
    | some '/' => (r.push .leading, true)
    | some _ => ((r.push .star).push .star, false)
  else if r.allowsDirectories previous then
    match next with
    | none => (r.mergeDirectories true, false)
    | some '/' => (r.mergeDirectories false, true)
    | some c =>
        if (c = ',' ∨ c = '\x7d') ∧ !r.frames.isEmpty then (r.mergeDirectories true, false)
        else ((r.push .star).push .star, false)
  else ((r.push .star).push .star, false)

/-- Reads a pattern behind the character `previous`. -/
def read (r : Reader) (previous : Option Char) : List Char → Except Error Reader
  | [] => if r.inClass.isSome then .error .unclosedClass else .ok r
  | c :: cs =>
      match r.inClass with
      | some k =>
          if c = ']' ∧ !k.first then { r.push k.token with inClass := none }.read (some c) cs
          else match k.read c with
            | .error e => .error e
            | .ok k => { r with inClass := some k }.read (some c) cs
      | none =>
          match c, cs with
          | '*', '*' :: '/' :: cs =>
              let (r, taken) := r.readStars previous (some '/')
              if taken then r.read (some '/') cs else (r.push (.literal '/')).read (some '/') cs
          | '*', '*' :: cs => (r.readStars previous cs.head?).1.read (some '*') cs
          | '*', cs => (r.push .star).read (some c) cs
          | '?', cs => (r.push .any).read (some c) cs
          | '[', '!' :: cs => { r with inClass := some { negated := true } }.read (some '!') cs
          | '[', '^' :: cs => { r with inClass := some { negated := true } }.read (some '^') cs
          | '[', cs => { r with inClass := some { negated := false } }.read (some c) cs
          | '\x7b', cs => r.openChoice.read (some c) cs
          | '\x7d', cs =>
              match r.closeChoice with
              | .error e => .error e
              | .ok r => r.read (some c) cs
          | ',', cs => r.readComma.read (some c) cs
          | '\\', [] => .error .danglingEscape
          | '\\', c :: cs => (r.push (.literal c)).read (some c) cs
          | c, cs => (r.push (.literal c)).read (some c) cs

end Reader

/-- Reads a pattern. -/
def parse (pattern : String) : Except Error (List Token) :=
  match ({} : Reader).read none pattern.toList with
  | .error e => .error e
  | .ok r =>
      if r.frames.isEmpty then
        let tokens := r.tokens.reverse
        if depth tokens ≤ maxDepth then .ok tokens else .error .tooDeep
      else .error .unclosedChoice

end Glob
end TemplateMarkup
