import TemplateMarkup.Expression.FilterChain
import TemplateMarkup.Text.Quoted

/-!
# Interpolation

A text with expressions between delimiters is split into literal pieces and bindings. An
interpolation is an opening delimiter, at least one character, and the first closing delimiter
behind that.
-/

namespace TemplateMarkup

structure Delimiters where
  opening : String
  closing : String
  deriving DecidableEq, Repr

/-- The delimiters of a template that chooses none: two braces on each side. -/
def Delimiters.braces : Delimiters :=
  { opening := "\x7b\x7b", closing := "\x7d\x7d" }

/-- A part of an interpolated text. -/
inductive Piece where
  | literal (text : String)
  | binding (expression : String)
  deriving DecidableEq, Repr

namespace Interpolation

/-- An interpolation: the text before it, its body, and what follows it. -/
structure Found where
  before : List Char
  body : List Char
  rest : List Char
  deriving DecidableEq, Repr

/-- The first interpolation. If the first opening delimiter has no closing one, no later one has. -/
def find? (d : Delimiters) (cs : List Char) : Option Found :=
  match Text.breakOn? d.opening.toList cs with
  | some (before, c :: behind) =>
      match Text.breakOn? d.closing.toList behind with
      | some (body, rest) => some { before, body := c :: body, rest }
      | none => none
  | _ => none

theorem find?_eq_some {d : Delimiters} {cs : List Char} {f : Found} (h : find? d cs = some f) :
    cs = f.before ++ d.opening.toList ++ f.body ++ d.closing.toList ++ f.rest ∧ f.body ≠ [] := by
  unfold find? at h
  split at h
  · next hopen =>
      split at h
      · next hclose =>
          simp only [Option.some.injEq] at h
          rw [← h, Text.breakOn?_eq_some hopen, Text.breakOn?_eq_some hclose]
          simp
      · simp at h
  · simp at h

theorem find?_length {d : Delimiters} {cs : List Char} {f : Found} (h : find? d cs = some f) :
    f.rest.length < cs.length := by
  have hfind := find?_eq_some h
  have hlen := congrArg List.length hfind.1
  have hpos := List.length_pos_iff.2 hfind.2
  simp only [List.length_append] at hlen
  omega

/-- A literal piece, unless it is empty. -/
def literal (cs : List Char) : List Piece :=
  match cs with
  | [] => []
  | cs => [.literal (String.ofList cs)]

/-- The pieces of a text. -/
def pieces (d : Delimiters) (cs : List Char) : List Piece :=
  match _h : find? d cs with
  | none => literal cs
  | some f =>
      let expression := String.ofList (FilterChain.compileChars (Text.trim f.body))
      literal f.before ++ .binding expression :: pieces d f.rest
termination_by cs.length
decreasing_by exact find?_length _h

/-- A piece as an operand: a string literal, or a binding turned into a string. -/
def operand : Piece → String
  | .literal text => Text.quote text
  | .binding expression => "_s(" ++ expression ++ ")"

end Interpolation

/-- A text with at least one interpolation. -/
structure Interpolated where
  pieces : List Piece
  deriving DecidableEq, Repr

namespace Interpolated

/-- Splits a text; `none` if there is no interpolation in it. -/
def parse? (d : Delimiters) (text : String) : Option Interpolated :=
  if (Interpolation.find? d text.toList).isSome then
    some { pieces := Interpolation.pieces d text.toList }
  else none

/-- The expression that puts the text together. -/
def expression (t : Interpolated) : String :=
  "+".intercalate (t.pieces.map Interpolation.operand)

end Interpolated
end TemplateMarkup
