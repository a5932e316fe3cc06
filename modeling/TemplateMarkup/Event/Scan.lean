import TemplateMarkup.Event.Basic
import TemplateMarkup.Event.RawText
import TemplateMarkup.Tag.Declaration
import TemplateMarkup.Tag.End

/-!
# Scanning

`scan` reads a source into events. A `Scanner` is where the reading stands: a cursor, and the
elements open there, innermost first. `Scanner.step?` reads one declaration, tag or run of text;
where it can read none, the rest of the source is malformed.

* `Scanner.step?_length`: every step leaves less to read, so the reading ends.

The cursor goes on behind what has been read, whatever the offsets in the events can hold (see
`Cursor`).
-/

namespace TemplateMarkup

/-- An open element: its name as written and the span of its start tag. -/
structure OpenTag where
  name : String
  span : Span
  deriving DecidableEq, Repr

structure Scanner where
  cursor : Cursor
  opened : List OpenTag
  deriving DecidableEq, Repr

namespace Scanner

/-! ## Closing elements -/

/-- What is reported of an element that has no end tag of its own. -/
def closeMissing (span : Span) (tag : OpenTag) : List Event :=
  [.warned ⟨.missingEndTag tag.name, tag.span⟩, .closed tag.name span]

/-- Closes the innermost element with a name, and all elements inside it. Without such an element
the end tag is ignored. -/
def closeNamed (name : String) (span : Span) (opened : List OpenTag) :
    List Event × List OpenTag :=
  match opened.dropWhile (fun tag => !Tag.sameName tag.name name) with
  | [] => ([], opened)
  | target :: outer =>
      let inner := opened.takeWhile (fun tag => !Tag.sameName tag.name name)
      (inner.flatMap (closeMissing span) ++ [.closed target.name span], outer)

/-- Closes the innermost element if it is one that the start tag `next` ends. -/
def closeBefore (next : StartTag) (ends : OpenTag → Bool) (opened : List OpenTag) :
    List Event × List OpenTag :=
  match opened with
  | [] => ([], [])
  | tag :: outer =>
      if ends tag then
        ([.warned ⟨.implicitlyClosed tag.name next.name, next.span⟩,
          .closed tag.name (.empty next.span.start)], outer)
      else ([], opened)

/-- Closes what is open at the end of the source. -/
def closeRest (size : Nat) (opened : List OpenTag) : List Event :=
  opened.flatMap (closeMissing (.empty size))

/-! ## Opening an element -/

/-- A paragraph ends before an element that cannot stand in it. -/
def endsParagraph (next : StartTag) (tag : OpenTag) : Bool :=
  tag.name.toLower == "p" && Tag.isNonPhrasing next.name

/-- An element that can be left open ends before one of the same name. -/
def endsSibling (next : StartTag) (tag : OpenTag) : Bool :=
  Tag.canBeLeftOpen next.name && Tag.sameName tag.name next.name

def isUnary (tag : StartTag) : Bool :=
  Tag.isVoid tag.name || tag.selfClosing

/-- Drops the line feed that some elements ignore at the start of their content. -/
def dropNewline (tag : StartTag) (c : Cursor) : Cursor :=
  match c.rest with
  | '\n' :: cs =>
      if !isUnary tag && Tag.dropsFirstNewline tag.name then c.advance ['\n'] cs else c
  | _ => c

/-- Opens the element of a start tag that has been read up to `after`. -/
def openTag (tag : StartTag) (after : Cursor) (opened : List OpenTag) : List Event × Scanner :=
  let (ended, opened) := closeBefore tag (endsParagraph tag) opened
  let (ended', opened) := closeBefore tag (endsSibling tag) opened
  let opened := if isUnary tag then opened else ⟨tag.name, tag.span⟩ :: opened
  (ended ++ ended' ++ [.opened tag (isUnary tag)], ⟨dropNewline tag after, opened⟩)

/-! ## Text -/

/-- Whether something other than text starts here. -/
def startsMarkup (cs : List Char) : Bool :=
  match cs with
  | '<' :: rest =>
      Declaration.starts cs || (EndTag.read? ⟨0, cs⟩).isSome || (Tag.readName? rest).isSome
  | _ => false

/-- Collects text into `front`, newest first, up to the first markup. -/
def textOnto (front : List Char) : List Char → List Char × List Char
  | [] => (front.reverse, [])
  | c :: cs =>
      if startsMarkup (c :: cs) then (front.reverse, c :: cs) else textOnto (c :: front) cs

/-! ## Steps -/

/-- Reads a run of text; `none` if it is empty. -/
def readText? (s : Scanner) : Option (List Event × Scanner) :=
  match textOnto [] s.cursor.rest with
  | ([], _) => none
  | (run, rest) =>
      let after := s.cursor.advance run rest
      some ([.text (String.ofList run) ⟨s.cursor.offset, after.offset⟩], { s with cursor := after })

/-- Reads a declaration, a tag or a run of text. -/
def readMarkup? (s : Scanner) : Option (List Event × Scanner) :=
  match Declaration.read? s.cursor.rest with
  | some (taken, rest) => some ([], { s with cursor := s.cursor.advance taken rest })
  | none =>
      match EndTag.read? s.cursor with
      | some (tag, after) =>
          let (events, opened) := closeNamed tag.name tag.span s.opened
          some (events, ⟨after, opened⟩)
      | none =>
          match StartTag.read? s.cursor with
          | some (tag, after) => some (openTag tag after s.opened)
          | none => readText? s

/-- The text event of the raw content of an element, unless it is empty. -/
def rawEvents (name : String) (body : List Char) (span : Span) : List Event :=
  match RawText.content name body with
  | [] => []
  | text => [.text (String.ofList text) span]

/-- Reads the content of the raw text element `name`, with its end tag if it has one. -/
def readRaw (name : String) (s : Scanner) : List Event × Scanner :=
  match RawText.end? name s.cursor.rest with
  | none =>
      let after := s.cursor.advance s.cursor.rest []
      (rawEvents name s.cursor.rest ⟨s.cursor.offset, after.offset⟩, { s with cursor := after })
  | some ended =>
      let stop := s.cursor.advance ended.body (ended.endTag ++ ended.rest)
      let after := stop.advance ended.endTag ended.rest
      let (events, opened) := closeNamed name ⟨stop.offset, after.offset⟩ s.opened
      (rawEvents name ended.body ⟨s.cursor.offset, stop.offset⟩ ++ events, ⟨after, opened⟩)

/-- The name, in lower case, of the raw text element whose content is being read. -/
def rawName? (opened : List OpenTag) : Option String :=
  match opened with
  | tag :: _ => if Tag.isRawText tag.name then some tag.name.toLower else none
  | [] => none

/-- Reads on by one step; `none` at malformed markup. -/
def step? (s : Scanner) : Option (List Event × Scanner) :=
  match rawName? s.opened with
  | some name => some (readRaw name s)
  | none => readMarkup? s

/-! ## Every step leaves less to read -/

theorem dropNewline_length (tag : StartTag) (c : Cursor) :
    (dropNewline tag c).rest.length ≤ c.rest.length := by
  unfold dropNewline
  split
  · next h =>
      split
      · simp [Cursor.advance, h]
      · exact Nat.le_refl _
  · exact Nat.le_refl _

theorem textOnto_eq (front cs : List Char) :
    front.reverse ++ cs = (textOnto front cs).1 ++ (textOnto front cs).2 := by
  induction cs generalizing front with
  | nil => simp [textOnto]
  | cons c cs ih =>
      unfold textOnto
      split
      · rfl
      · simpa using ih (c :: front)

theorem readText?_length {s next : Scanner} {events : List Event}
    (h : readText? s = some (events, next)) :
    next.cursor.rest.length < s.cursor.rest.length := by
  unfold readText? at h
  have htext := textOnto_eq [] s.cursor.rest
  split at h
  · simp at h
  · next run rest hne heq =>
      rw [heq] at htext
      have hlen := congrArg List.length htext
      simp only [Option.some.injEq, Prod.mk.injEq] at h
      have hrun : run.length ≠ 0 := fun hzero => hne (List.length_eq_zero_iff.1 hzero)
      rw [← h.2]
      simp only [Cursor.advance, List.reverse_nil, List.nil_append, List.length_append] at hlen ⊢
      omega

theorem readMarkup?_length {s next : Scanner} {events : List Event}
    (h : readMarkup? s = some (events, next)) :
    next.cursor.rest.length < s.cursor.rest.length := by
  unfold readMarkup? at h
  split at h
  · next hd =>
      have hdecl := Declaration.read?_eq_some hd
      have hlen := congrArg List.length hdecl.1
      have hpos := List.length_pos_iff.2 hdecl.2
      simp only [Option.some.injEq, Prod.mk.injEq] at h
      rw [← h.2]
      simp only [Cursor.advance, List.length_append] at hlen ⊢
      omega
  · split at h
    · next he =>
        simp only [Option.some.injEq, Prod.mk.injEq] at h
        rw [← h.2]
        exact EndTag.read?_length he
    · split at h
      · next tag after hs =>
          have hstart := StartTag.read?_length hs
          have hdrop := dropNewline_length tag after
          simp only [openTag, Option.some.injEq, Prod.mk.injEq] at h
          rw [← h.2]
          exact Nat.lt_of_le_of_lt hdrop hstart
      · exact readText?_length h

theorem readRaw_length (name : String) {s : Scanner} (h : s.cursor.rest ≠ []) :
    (readRaw name s).2.cursor.rest.length < s.cursor.rest.length := by
  unfold readRaw
  split
  · simpa [Cursor.advance] using List.length_pos_iff.2 h
  · next e he =>
      have hend := RawText.end?_eq_some he
      have hlen := congrArg List.length hend.1
      have hpos := List.length_pos_iff.2 hend.2
      simp only [Cursor.advance, List.length_append] at hlen ⊢
      omega

theorem step?_length {s next : Scanner} {events : List Event} (hrest : s.cursor.rest ≠ [])
    (h : step? s = some (events, next)) :
    next.cursor.rest.length < s.cursor.rest.length := by
  unfold step? at h
  split at h
  · next name _ =>
      simp only [Option.some.injEq] at h
      have := readRaw_length name hrest
      rw [h] at this
      exact this
  · exact readMarkup?_length h

/-! ## The whole source -/

/-- How many characters of a malformed rest a warning quotes. -/
def maxFragment : Nat := 64

/-- The quoted part of a malformed rest. -/
def fragment (cs : List Char) : String :=
  match cs.drop maxFragment with
  | [] => String.ofList cs
  | _ => String.ofList (cs.take maxFragment) ++ "..."

/-- Gives up: the rest becomes text. -/
def malformed (c : Cursor) : List Event :=
  let span : Span := ⟨c.offset, (c.advance c.rest []).offset⟩
  [.text (String.ofList c.rest) span, .warned ⟨.malformedTag (fragment c.rest), span⟩]

/-- Reads to the end, behind the events of `out`. -/
def run (s : Scanner) (out : Array Event) : Array Event :=
  if _hrest : s.cursor.rest = [] then out ++ closeRest s.cursor.offset s.opened
  else match _h : step? s with
    | some (events, next) => run next (out ++ events)
    | none =>
        let size := (s.cursor.advance s.cursor.rest []).offset
        out ++ malformed s.cursor ++ closeRest size s.opened
termination_by s.cursor.rest.length
decreasing_by exact step?_length _hrest _h

/-- The start of a source, where nothing is open. -/
def ofText (source : String) : Scanner :=
  { cursor := Cursor.ofText source, opened := [] }

end Scanner

/-- The events of a source, in document order. -/
def scan (source : String) : List Event :=
  ((Scanner.ofText source).run #[]).toList

end TemplateMarkup
