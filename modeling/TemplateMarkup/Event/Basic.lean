import TemplateMarkup.Tag.Start
import TemplateMarkup.Warning

/-!
# Markup events

A source is read into a list of events: elements that are opened and closed, runs of text, and
warnings between them.
-/

namespace TemplateMarkup

inductive Event where
  /-- A start tag; a unary element has no content and is not closed. -/
  | opened (tag : StartTag) (unary : Bool)
  /-- The end of the element opened as `name`; the span is that of the end tag, or empty. -/
  | closed (name : String) (span : Span)
  | text (content : String) (span : Span)
  | warned (warning : Warning)
  deriving DecidableEq, Repr

end TemplateMarkup
