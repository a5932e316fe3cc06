import Mathlib.Data.List.TakeWhile
import TemplateMarkup.Event.Scan

/-!
# What closing does

Elements are closed by end tags, by start tags and by the end of the source. All of these take the
innermost elements off the stack, one after the other, and report the same span for each:

* `Scanner.Closes span closing events` — `events` end the elements of `closing`, innermost first,
  with `span`, and with at most one warning each,
* `Scanner.closes_closeNamed`, `Scanner.closes_closeBefore`, `Scanner.closes_closeAll` — this is
  what the closing operations do,
* `Scanner.closeNamed_of_none`, `Scanner.closeNamed_of_innermost` — an end tag closes up to the
  innermost element of its name (`Scanner.exists_innermost`),
* `Scanner.closes_openTag` — a start tag closes elements and then opens its own.
-/

namespace TemplateMarkup
namespace Scanner

variable {span : Span} {closing more opened : List OpenTag} {events events' : List Event}

/-- The events end the elements of `closing`, innermost first. -/
inductive Closes (span : Span) : List OpenTag → List Event → Prop where
  | nil : Closes span [] []
  | own {tag : OpenTag} {closing : List OpenTag} {events : List Event} :
      Closes span closing events →
      Closes span (tag :: closing) (.closed tag.name span :: events)
  | warned {tag : OpenTag} {warning : Warning} {closing : List OpenTag} {events : List Event} :
      Closes span closing events →
      Closes span (tag :: closing) (.warned warning :: .closed tag.name span :: events)

theorem Closes.append (h : Closes span closing events) (hmore : Closes span more events') :
    Closes span (closing ++ more) (events ++ events') := by
  induction h with
  | nil => exact hmore
  | own _ ih => exact .own ih
  | warned _ ih => exact .warned ih

theorem Closes.eq_nil (h : Closes span [] events) : events = [] := by
  cases h
  rfl

/-! ## The closing operations -/

theorem closes_closeAll (span : Span) (closing : List OpenTag) :
    Closes span closing (closing.flatMap (closeMissing span)) := by
  induction closing with
  | nil => exact .nil
  | cons tag closing ih => exact .warned ih

/-- The innermost element of a name, if there is one. -/
theorem exists_innermost (name : String) (opened : List OpenTag) :
    (∀ tag ∈ opened, Tag.sameName tag.name name = false) ∨
      ∃ inner target outer, opened = inner ++ target :: outer ∧
        (∀ tag ∈ inner, Tag.sameName tag.name name = false) ∧ Tag.sameName target.name name := by
  induction opened with
  | nil => exact .inl (by simp)
  | cons tag opened ih =>
      cases htag : Tag.sameName tag.name name with
      | true => exact .inr ⟨[], tag, opened, rfl, by simp, htag⟩
      | false =>
          rcases ih with hnone | ⟨inner, target, outer, rfl, hinner, htarget⟩
          · exact .inl (List.forall_mem_cons.2 ⟨htag, hnone⟩)
          · exact .inr ⟨tag :: inner, target, outer, rfl, List.forall_mem_cons.2 ⟨htag, hinner⟩,
              htarget⟩

theorem closeNamed_of_none {name : String}
    (h : ∀ tag ∈ opened, Tag.sameName tag.name name = false) :
    closeNamed name span opened = ([], opened) := by
  have hdrop : opened.dropWhile (fun tag => !Tag.sameName tag.name name) = [] := by
    simpa using h
  simp [closeNamed, hdrop]

theorem closeNamed_of_innermost {name : String} {inner outer : List OpenTag} {target : OpenTag}
    (hinner : ∀ tag ∈ inner, Tag.sameName tag.name name = false)
    (htarget : Tag.sameName target.name name) :
    closeNamed name span (inner ++ target :: outer) =
      (inner.flatMap (closeMissing span) ++ [.closed target.name span], outer) := by
  have hall : ∀ tag ∈ inner, (!Tag.sameName tag.name name) = true := by
    simpa using hinner
  have hstop : ¬(!Tag.sameName target.name name) = true := by
    simpa using htarget
  simp [closeNamed, List.dropWhile_append_of_pos hall, List.takeWhile_append_of_pos hall, hstop,
    List.dropWhile_cons_of_neg, List.takeWhile_cons_of_neg]

/-- An end tag closes everything up to the innermost element of its name, or nothing. -/
theorem closes_closeNamed (name : String) (span : Span) (opened : List OpenTag) :
    ∃ closing, opened = closing ++ (closeNamed name span opened).2 ∧
      Closes span closing (closeNamed name span opened).1 ∧
      (closing = [] → ∀ tag ∈ opened, ¬Tag.sameName tag.name name) := by
  rcases exists_innermost name opened with hnone | ⟨inner, target, outer, rfl, hinner, htarget⟩
  · rw [closeNamed_of_none hnone]
    exact ⟨[], rfl, .nil, fun _ => by simpa using hnone⟩
  · rw [closeNamed_of_innermost hinner htarget]
    refine ⟨inner ++ [target], by simp, ?_, by simp⟩
    exact (closes_closeAll span inner).append (.own .nil)

/-- A start tag closes the innermost element or nothing. -/
theorem closes_closeBefore (next : StartTag) (ends : OpenTag → Bool) (opened : List OpenTag) :
    ∃ closing, opened = closing ++ (closeBefore next ends opened).2 ∧
      Closes (.empty next.span.start) closing (closeBefore next ends opened).1 := by
  cases opened with
  | nil => exact ⟨[], rfl, .nil⟩
  | cons tag outer =>
      by_cases hends : ends tag = true
      · exact ⟨[tag], by simp [closeBefore, hends],
          by simpa [closeBefore, hends] using .warned .nil⟩
      · exact ⟨[], by simp [closeBefore, hends], by simpa [closeBefore, hends] using .nil⟩

/-! ## Opening -/

/-- What is open behind both checks of a start tag. -/
def remaining (tag : StartTag) (opened : List OpenTag) : List OpenTag :=
  (closeBefore tag (endsSibling tag) (closeBefore tag (endsParagraph tag) opened).2).2

/-- What is open behind a start tag. -/
def openedBy (tag : StartTag) (opened : List OpenTag) : List OpenTag :=
  if isUnary tag then remaining tag opened else ⟨tag.name, tag.span⟩ :: remaining tag opened

/-- A start tag closes what it ends and opens its element. -/
theorem closes_openTag (tag : StartTag) (after : Cursor) (opened : List OpenTag) :
    ∃ closing ended, opened = closing ++ remaining tag opened ∧
      Closes (.empty tag.span.start) closing ended ∧
      openTag tag after opened =
        (ended ++ [.opened tag (isUnary tag)], ⟨dropNewline tag after, openedBy tag opened⟩) := by
  rcases closes_closeBefore tag (endsParagraph tag) opened with ⟨first, hfirst, hcloses⟩
  rcases closes_closeBefore tag (endsSibling tag)
    (closeBefore tag (endsParagraph tag) opened).2 with ⟨second, hsecond, hcloses'⟩
  refine ⟨first ++ second, _, ?_, hcloses.append hcloses', rfl⟩
  rw [List.append_assoc, remaining, ← hsecond]
  exact hfirst

/-- The line feed behind a start tag is dropped or not. -/
theorem dropNewline_cases (tag : StartTag) (c : Cursor) :
    dropNewline tag c = c ∨
      ∃ cs, c.rest = '\n' :: cs ∧ isUnary tag = false ∧ Tag.dropsFirstNewline tag.name ∧
        dropNewline tag c = c.advance ['\n'] cs := by
  unfold dropNewline
  split
  · next cs hcs =>
      split
      · next hdrops =>
          rcases Bool.and_eq_true_iff.1 hdrops with ⟨hunary, hname⟩
          exact .inr ⟨cs, hcs, by simpa using hunary, hname, rfl⟩
      · exact .inl rfl
  · exact .inl rfl

end Scanner
end TemplateMarkup
