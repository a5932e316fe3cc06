import TemplateMarkup.Cursor
import TemplateMarkup.Span
import TemplateMarkup.Tag.Name

/-!
# End tags

An end tag is `</`, a name and anything up to a closing bracket not too far behind the name.
-/

namespace TemplateMarkup

structure EndTag where
  name : String
  span : Span
  deriving DecidableEq, Repr

namespace EndTag

/-- The most bytes between the name and the closing bracket. -/
def maxTrailingBytes : Nat := 1023

/-- Reads the end tag at a cursor, which has to stand on its opening bracket. -/
def read? (c : Cursor) : Option (EndTag × Cursor) :=
  match c.rest with
  | '<' :: '/' :: cs =>
      match Tag.readName? cs with
      | none => none
      | some (name, rest) =>
          match Text.breakWithin? '>' maxTrailingBytes rest with
          | none => none
          | some (trailing, rest) =>
              let last := c.advance ('<' :: '/' :: (name ++ trailing ++ ['>'])) rest
              some ({ name := String.ofList name, span := ⟨c.offset, last.offset⟩ }, last)
  | _ => none

theorem read?_length {c last : Cursor} {tag : EndTag} (h : read? c = some (tag, last)) :
    last.rest.length < c.rest.length := by
  unfold read? at h
  split at h
  · next cs hcs =>
      split at h
      · simp at h
      · next name rest hn =>
          split at h
          · simp at h
          · next hb =>
              simp only [Option.some.injEq, Prod.mk.injEq] at h
              have h1 := congrArg List.length (Tag.readName?_eq_some hn).1
              have h2 := congrArg List.length (Text.breakWithin?_eq_some hb)
              rw [← h.2, hcs]
              simp only [Cursor.advance, List.length_append, List.length_cons] at h1 h2 ⊢
              omega
  · simp at h

end EndTag
end TemplateMarkup
