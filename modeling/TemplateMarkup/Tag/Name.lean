import TemplateMarkup.Text.Basic

/-!
# Tag names

A name is a part, or two parts with a colon between them. A part starts with an ASCII letter or an
underscore and goes on with letters, digits, underscores, hyphens and points.
-/

namespace TemplateMarkup
namespace Tag

/-- The most bytes a tag name or an attribute name may have. -/
def maxNameBytes : Nat := 1024

def isPartStart (c : Char) : Bool :=
  c.isAlpha || c == '_'

def isPartChar (c : Char) : Bool :=
  c.isAlphanum || c == '_' || c == '-' || c == '.'

/-- Reads the longest part at the front. -/
def readPart? : List Char → Option (List Char × List Char)
  | [] => none
  | c :: cs =>
      if isPartStart c then some (c :: cs.takeWhile isPartChar, cs.dropWhile isPartChar)
      else none

/-- Reads the longest name at the front; a colon that no second part follows is left. -/
def readLongName? (cs : List Char) : Option (List Char × List Char) :=
  match readPart? cs with
  | some (first, ':' :: rest) =>
      match readPart? rest with
      | some (second, rest) => some (first ++ ':' :: second, rest)
      | none => some (first, ':' :: rest)
  | other => other

/-- Reads a name of acceptable length. -/
def readName? (cs : List Char) : Option (List Char × List Char) :=
  match readLongName? cs with
  | some (name, rest) => if Text.byteLength name ≤ maxNameBytes then some (name, rest) else none
  | none => none

theorem readPart?_eq_some {cs part rest : List Char} (h : readPart? cs = some (part, rest)) :
    cs = part ++ rest ∧ part ≠ [] := by
  cases cs with
  | nil => simp [readPart?] at h
  | cons c cs =>
      simp only [readPart?] at h
      split at h
      · simp only [Option.some.injEq, Prod.mk.injEq] at h
        simp [← h.1, ← h.2, List.takeWhile_append_dropWhile]
      · simp at h

theorem readLongName?_eq_some {cs name rest : List Char}
    (h : readLongName? cs = some (name, rest)) : cs = name ++ rest ∧ name ≠ [] := by
  unfold readLongName? at h
  split at h
  · next first tail hp =>
      have hfirst := readPart?_eq_some hp
      split at h
      · next second rest' hs =>
          have hsecond := readPart?_eq_some hs
          simp only [Option.some.injEq, Prod.mk.injEq] at h
          simp [← h.1, ← h.2, hfirst.1, hsecond.1]
      · simp only [Option.some.injEq, Prod.mk.injEq] at h
        rw [← h.1, ← h.2]
        exact hfirst
  · exact readPart?_eq_some h

theorem readName?_eq_some {cs name rest : List Char} (h : readName? cs = some (name, rest)) :
    cs = name ++ rest ∧ name ≠ [] := by
  unfold readName? at h
  split at h
  · next hl =>
      split at h
      · simp only [Option.some.injEq, Prod.mk.injEq] at h
        rw [← h.1, ← h.2]
        exact readLongName?_eq_some hl
      · simp at h
  · simp at h

end Tag
end TemplateMarkup
