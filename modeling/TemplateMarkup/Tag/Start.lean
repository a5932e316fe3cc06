import TemplateMarkup.Reference.Decode
import TemplateMarkup.Span
import TemplateMarkup.Tag.Name
import TemplateMarkup.Tag.Token

/-!
# Start tags

`StartTag.read?` reads a start tag: its name, its attributes and the closing bracket. A tag with
anything else in it, with too many attributes or with too long an attribute name is none.
-/

namespace TemplateMarkup

/-- An attribute as written: the name, the decoded value (empty if there is none), and the span of
both. -/
structure Attribute where
  name : String
  value : String
  span : Span
  deriving DecidableEq, Repr

structure StartTag where
  name : String
  attributes : List Attribute
  selfClosing : Bool
  span : Span
  deriving DecidableEq, Repr

namespace Tag

/-- The most attributes a start tag may have. -/
def maxAttributes : Nat := 1024

/-- The characters of a value without quotes. -/
def isUnquotedChar (c : Char) : Bool :=
  !(Text.isTagBlank c || c == '"' || c == '\'' || c == '=' || c == '<' || c == '>' || c == '\x60')

/-- The value at a cursor that follows an equals sign and blanks. -/
def readAssigned? (start : Cursor) (token : Token) (stop : Cursor) :
    Option (List Char × Cursor) :=
  match token with
  | .quoted _ body => some (Reference.decodeAttribute body, stop)
  | _ =>
      match start.rest.takeWhile isUnquotedChar with
      | [] => none
      | raw =>
          some (Reference.decodeAttribute raw,
            start.advance raw (start.rest.dropWhile isUnquotedChar))

/-- The value that follows an attribute name: empty without an equals sign, and `none` if an
equals sign is followed by no value. -/
def readValue? (c : Cursor) : Option (List Char × Cursor) :=
  match Token.next? c with
  | some (_, .equals, afterEquals) =>
      match Token.next? afterEquals with
      | some (start, token, stop) => readAssigned? start token stop
      | none => none
  | _ => some ([], c)

/-- Reads at most `room` attributes and the closing bracket behind them. -/
def readAttributes? (room : Nat) (c : Cursor) : Option (List Attribute × Bool × Cursor) :=
  match Token.next? c with
  | some (_, .close selfClosing, stop) => some ([], selfClosing, stop)
  | some (start, .name text, afterName) =>
      match room with
      | 0 => none
      | room + 1 =>
          if maxNameBytes < Text.byteLength text then none
          else match readValue? afterName with
            | none => none
            | some (value, stop) =>
                match readAttributes? room stop with
                | none => none
                | some (attributes, selfClosing, last) =>
                    some
                      ({ name := String.ofList text
                         value := String.ofList value
                         span := ⟨start.offset, stop.offset⟩ } :: attributes,
                        selfClosing, last)
  | _ => none

theorem readValue?_length {c stop : Cursor} {value : List Char}
    (h : readValue? c = some (value, stop)) : stop.rest.length ≤ c.rest.length := by
  unfold readValue? at h
  split at h
  · next hequals =>
      have h1 := Token.next?_length hequals
      split at h
      · next start token stop' hvalue =>
          have h2 := Token.next?_length hvalue
          unfold readAssigned? at h
          split at h
          · simp only [Option.some.injEq, Prod.mk.injEq] at h
            rw [← h.2]
            omega
          · split at h
            · simp at h
            · simp only [Option.some.injEq, Prod.mk.injEq] at h
              have h3 := congrArg List.length
                (List.takeWhile_append_dropWhile (p := isUnquotedChar) (l := start.rest))
              rw [← h.2]
              simp only [Cursor.advance, List.length_append] at h3 ⊢
              omega
      · simp at h
  · simp only [Option.some.injEq, Prod.mk.injEq] at h
    exact h.2 ▸ Nat.le_refl _

theorem readAttributes?_length {room : Nat} {c last : Cursor} {attributes : List Attribute}
    {selfClosing : Bool} (h : readAttributes? room c = some (attributes, selfClosing, last)) :
    last.rest.length ≤ c.rest.length := by
  induction room generalizing c attributes selfClosing last with
  | zero =>
      unfold readAttributes? at h
      split at h
      · next hn =>
          simp only [Option.some.injEq, Prod.mk.injEq] at h
          have := Token.next?_length hn
          rw [← h.2.2]
          omega
      · simp at h
      · simp at h
  | succ room ih =>
      unfold readAttributes? at h
      split at h
      · next hn =>
          simp only [Option.some.injEq, Prod.mk.injEq] at h
          have := Token.next?_length hn
          rw [← h.2.2]
          omega
      · next hn =>
          have h1 := Token.next?_length hn
          simp only at h
          split at h
          · simp at h
          · split at h
            · simp at h
            · next hv =>
                have h2 := readValue?_length hv
                split at h
                · simp at h
                · next hr =>
                    simp only [Option.some.injEq, Prod.mk.injEq] at h
                    have h3 := ih hr
                    rw [← h.2.2]
                    omega
      · simp at h

end Tag

namespace StartTag

/-- Reads the start tag at a cursor, which has to stand on its opening bracket. -/
def read? (c : Cursor) : Option (StartTag × Cursor) :=
  match c.rest with
  | '<' :: cs =>
      match Tag.readName? cs with
      | none => none
      | some (name, rest) =>
          match Tag.readAttributes? Tag.maxAttributes (c.advance ('<' :: name) rest) with
          | none => none
          | some (attributes, selfClosing, last) =>
              some
                ({ name := String.ofList name, attributes, selfClosing
                   span := ⟨c.offset, last.offset⟩ }, last)
  | _ => none

theorem read?_length {c last : Cursor} {tag : StartTag} (h : read? c = some (tag, last)) :
    last.rest.length < c.rest.length := by
  unfold read? at h
  split at h
  · next cs hcs =>
      split at h
      · simp at h
      · next name rest hn =>
          split at h
          · simp at h
          · next ha =>
              simp only [Option.some.injEq, Prod.mk.injEq] at h
              have h1 := congrArg List.length (Tag.readName?_eq_some hn).1
              have h2 := Tag.readAttributes?_length ha
              rw [← h.2, hcs]
              simp only [Cursor.advance, List.length_append, List.length_cons] at h1 h2 ⊢
              omega
  · simp at h

end StartTag
end TemplateMarkup
