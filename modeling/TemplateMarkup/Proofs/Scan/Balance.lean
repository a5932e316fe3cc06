import TemplateMarkup.Proofs.Event.Nesting
import TemplateMarkup.Proofs.Scan.Closing
import TemplateMarkup.Proofs.Scan.Reading

/-!
# The events of a scan are balanced

A scanner keeps a stack of open elements. Whatever a step does to that stack, the events it reports
do to a replay of the events: `Scanner.Step.replay`. At the end of the source everything that is
left open is closed, so the replay of a whole source starts and ends with nothing open.
-/

namespace TemplateMarkup
namespace Scanner

open Event

variable {s next : Scanner} {events : List Event}

/-- The names of the open elements, innermost first. -/
def names (opened : List OpenTag) : List String :=
  opened.map (·.name)

@[simp] theorem names_nil : names [] = [] := rfl

@[simp] theorem names_cons (tag : OpenTag) (opened : List OpenTag) :
    names (tag :: opened) = tag.name :: names opened := rfl

/-! ## Closing -/

/-- Elements that are closed one after the other leave those around them open. -/
theorem Closes.replay {span : Span} {closing : List OpenTag} (h : Closes span closing events)
    (outer : List OpenTag) : replay? (names (closing ++ outer)) events = some (names outer) := by
  induction h with
  | nil => rfl
  | own _ ih => simpa using ih
  | warned _ ih => simpa using ih

theorem replay?_closeRest (size : Nat) (opened : List OpenTag) :
    replay? (names opened) (closeRest size opened) = some [] := by
  have hreplay := (closes_closeAll (.empty size) opened).replay []
  rwa [List.append_nil] at hreplay

theorem replay?_closeNamed (name : String) (span : Span) (opened : List OpenTag) :
    replay? (names opened) (closeNamed name span opened).1 =
      some (names (closeNamed name span opened).2) := by
  rcases closes_closeNamed name span opened with ⟨closing, hsplit, hcloses, _⟩
  have hreplay := hcloses.replay (closeNamed name span opened).2
  rwa [← hsplit] at hreplay

/-! ## Steps -/

theorem replay?_openTag (tag : StartTag) (after : Cursor) (opened : List OpenTag) :
    replay? (names opened) (openTag tag after opened).1 =
      some (names (openTag tag after opened).2.opened) := by
  rcases closes_openTag tag after opened with ⟨closing, ended, hsplit, hcloses, heq⟩
  have hended := hcloses.replay (remaining tag opened)
  rw [← hsplit] at hended
  -- Two elements at most are ended first, then the new one is opened.
  rw [heq, replay?_append, hended, Option.bind_some, replay?_opened, replay?_nil]
  unfold openedBy
  split <;> rfl

theorem replay?_rawEvents (stack : List String) (name : String) (body : List Char) (span : Span) :
    replay? stack (rawEvents name body span) = some stack := by
  unfold rawEvents
  split <;> rfl

theorem replay?_malformed (stack : List String) (c : Cursor) :
    replay? stack (malformed c) = some stack := by
  simp [malformed]

/-- What a step does to the open elements, its events do to a replay. -/
theorem Step.replay (h : Step s events next) :
    replay? (names s.opened) events = some (names next.opened) := by
  cases h with
  | declaration _ _ => rfl
  | endTag _ _ _ => exact replay?_closeNamed _ _ _
  | startTag _ _ _ _ => exact replay?_openTag _ _ _
  | text _ _ _ _ _ _ => rfl
  | rawRest _ _ => exact replay?_rawEvents _ _ _ _
  | rawEnded _ _ _ _ =>
      -- Raw content is text; its end tag closes by name like any other.
      rw [replay?_append, replay?_rawEvents]
      exact replay?_closeNamed _ _ _

/-! ## The whole source -/

theorem Reads.replay (h : Reads s events) : replay? (names s.opened) events = some [] := by
  induction h with
  | done _ => exact replay?_closeRest _ _
  | step _ hstep _ ih =>
      rw [replay?_append, hstep.replay]
      exact ih
  | malformed _ _ =>
      rw [replay?_append, replay?_malformed]
      exact replay?_closeRest _ _

end Scanner

/-- The events of a source are balanced: read with a stack of the names that are open, each end
event carries the name on top of the stack, and nothing is open in the end. -/
theorem scan_balanced (source : String) : Event.replay? [] (scan source) = some [] :=
  (reads_scan source).replay

end TemplateMarkup
