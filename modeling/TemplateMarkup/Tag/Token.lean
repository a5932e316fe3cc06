import TemplateMarkup.Cursor

/-!
# Tokens of a start tag

What may follow the name of a start tag, blanks apart: attribute names, equals signs, quoted
values and the closing bracket. `lexeme` is the text of a token, so that `lexeme t ++ rest` is the
text a token was read from.
-/

namespace TemplateMarkup
namespace Tag

inductive Token where
  | name (text : List Char)
  | equals
  | quoted (mark : Char) (body : List Char)
  | close (selfClosing : Bool)
  /-- No token starts here. -/
  | invalid
  deriving DecidableEq, Repr

namespace Token

/-- The characters of an attribute name. -/
def isNameChar (c : Char) : Bool :=
  !(Text.isTagBlank c || c == '"' || c == '\'' || c == '<' || c == '>' || c == '/' || c == '=')

/-- The text a token is written as. -/
def lexeme : Token → List Char
  | name text => text
  | equals => ['=']
  | quoted mark body => mark :: (body ++ [mark])
  | close false => ['>']
  | close true => ['/', '>']
  | invalid => []

/-- A quoted value whose opening `mark` has been read. -/
def readQuoted (mark : Char) (cs : List Char) : Token × List Char :=
  match Text.breakOn? [mark] cs with
  | some (body, rest) => (quoted mark body, rest)
  | none => (invalid, mark :: cs)

/-- Reads the longest token at the front; `none` at the end of the text. -/
def read? : List Char → Option (Token × List Char)
  | [] => none
  | '=' :: cs => some (equals, cs)
  | '>' :: cs => some (close false, cs)
  | '/' :: '>' :: cs => some (close true, cs)
  | '"' :: cs => some (readQuoted '"' cs)
  | '\'' :: cs => some (readQuoted '\'' cs)
  | c :: cs =>
      if isNameChar c then some (name (c :: cs.takeWhile isNameChar), cs.dropWhile isNameChar)
      else some (invalid, c :: cs)

/-- The next token that is no blank, with the cursors before and after it. -/
def next? (c : Cursor) : Option (Cursor × Token × Cursor) :=
  let start := c.advance (c.rest.takeWhile Text.isTagBlank) (c.rest.dropWhile Text.isTagBlank)
  match read? start.rest with
  | some (token, rest) => some (start, token, start.advance token.lexeme rest)
  | none => none

theorem readQuoted_eq {mark : Char} {cs : List Char} :
    mark :: cs = (readQuoted mark cs).1.lexeme ++ (readQuoted mark cs).2 := by
  unfold readQuoted
  split
  · next h => simp [lexeme, Text.breakOn?_eq_some h]
  · simp [lexeme]

theorem read?_eq_some {cs rest : List Char} {token : Token} (h : read? cs = some (token, rest)) :
    cs = token.lexeme ++ rest := by
  unfold read? at h
  split at h
  · simp at h
  · simp only [Option.some.injEq, Prod.mk.injEq] at h
    simp [← h.1, ← h.2, lexeme]
  · simp only [Option.some.injEq, Prod.mk.injEq] at h
    simp [← h.1, ← h.2, lexeme]
  · simp only [Option.some.injEq, Prod.mk.injEq] at h
    simp [← h.1, ← h.2, lexeme]
  · rw [Option.some.injEq] at h
    rw [readQuoted_eq, h]
  · rw [Option.some.injEq] at h
    rw [readQuoted_eq, h]
  · split at h
    · simp only [Option.some.injEq, Prod.mk.injEq] at h
      simp [← h.1, ← h.2, lexeme, List.takeWhile_append_dropWhile]
    · simp only [Option.some.injEq, Prod.mk.injEq] at h
      simp [← h.1, ← h.2, lexeme]

theorem next?_length {c start stop : Cursor} {token : Token}
    (h : next? c = some (start, token, stop)) :
    start.rest.length ≤ c.rest.length ∧ stop.rest.length ≤ start.rest.length := by
  simp only [next?] at h
  split at h
  · next hr =>
      simp only [Option.some.injEq, Prod.mk.injEq] at h
      obtain ⟨rfl, rfl, rfl⟩ := h
      have hread := congrArg List.length (read?_eq_some hr)
      have hsplit := congrArg List.length
        (List.takeWhile_append_dropWhile (p := Text.isTagBlank) (l := c.rest))
      simp only [Cursor.advance, List.length_append] at hread hsplit ⊢
      omega
  · simp at h

end Token
end Tag
end TemplateMarkup
