import TemplateMarkup.Proofs.Scan.Progress
import TemplateMarkup.Proofs.Tag.Grammar

/-!
# Start tags beyond the bounds

A start tag with too many attributes, or with an attribute name that is too long, is not read. Its
own name still makes it look like markup, so the reading stops there as it does at a start tag that
does not end: all that follows it becomes part of one text (`scan_oversized`).
-/

namespace TemplateMarkup

open Scanner Tag

variable {source : String} {events : List Event} {s : Scanner} {t : StartTagText}
  {post : List Char}

/-- Outside of raw text, nothing can be read at a start tag beyond the bounds. -/
theorem Scanner.stuck_of_not_fits (hraw : rawName? s.opened = none)
    (hrest : s.cursor.rest = t.chars ++ post) (hfits : ¬t.Fits) : s.Stuck := by
  have hname : (readName? (t.chars ++ post).tail).isSome := by
    simpa [StartTagText.chars] using Option.isSome_of_eq_some (t.readName?_chars post)
  have hread : StartTag.read? s.cursor = none := by
    have hnone := t.read?_eq s.cursor.offset post
    rwa [if_neg hfits, ← hrest] at hnone
  exact ⟨hraw, .noStartTag (by rw [hrest]; rfl) hname hread⟩

/-- Where a reading comes to a start tag beyond the bounds, the tag and everything behind it are
one text with a warning of malformed markup, and all that is open is closed at the end of the
source. -/
theorem scan_oversized (hleads : Leads (ofText source) events s) (hraw : rawName? s.opened = none)
    (hrest : s.cursor.rest = t.chars ++ post) (hfits : ¬t.Fits) :
    ∃ opens, Event.Enclosing events opens ∧
      scan source = events ++
        [.text (String.ofList (t.chars ++ post))
            ⟨s.cursor.offset, Text.byteLength source.toList⟩,
          .warned ⟨.malformedTag (fragment (t.chars ++ post)),
            ⟨s.cursor.offset, Text.byteLength source.toList⟩⟩] ++
        opens.flatMap fun start =>
          [.warned ⟨.missingEndTag start.2.name, start.2.span⟩,
            .closed start.2.name (.empty (Text.byteLength source.toList))] := by
  have hstuck := stuck_of_not_fits hraw hrest hfits
  have hplace := hleads.place (Cursor.at_ofText source)
  rcases hleads.enclosing (tracks_ofText source) with ⟨opens, htracks⟩
  refine ⟨opens, htracks.1, ?_⟩
  rw [hleads.scan_eq_of_stuck hstuck, htracks.closeRest_eq]
  have hsize := hplace.offset_add
  rw [hrest] at hsize
  simp only [malformed, Cursor.advance, hrest, hsize]

/-- `<p aa…a>`, with one byte more in the attribute name than there may be. -/
def longName : StartTagText where
  name := "p".toList
  attributes :=
    [{ lead := .space, name := List.replicate (maxNameBytes + 1) 'a'
       assignment := .absent, lead_nonempty := Blanks.space_ne_nil
       name_nonempty := List.cons_ne_nil _ _
       name_chars := fun c hc => by rw [List.eq_of_mem_replicate hc]; decide }]
  trail := .none
  selfClosing := false
  name_read := by decide
  apart := nofun

theorem longName_not_fits : ¬longName.Fits := by
  decide +kernel

/-- `longName`, a text and a void element. -/
def longNameSource : String :=
  String.ofList (longName.chars ++ "x<br>".toList)

theorem longNameSource_rest :
    (ofText longNameSource).cursor.rest = longName.chars ++ "x<br>".toList := by
  rw [ofText, Cursor.ofText, longNameSource, String.toList_ofList]

theorem longNameSource_size : Text.byteLength longNameSource.toList = 1034 := by
  rw [longNameSource, String.toList_ofList]
  decide +kernel

theorem scan_oversized_longName :
    ¬longName.Fits ∧ ∃ opens, Event.Enclosing [] opens ∧
      scan longNameSource = [] ++
        [.text (String.ofList (longName.chars ++ "x<br>".toList)) ⟨0, 1034⟩,
          .warned ⟨.malformedTag (fragment (longName.chars ++ "x<br>".toList)), ⟨0, 1034⟩⟩] ++
        opens.flatMap fun start =>
          [.warned ⟨.missingEndTag start.2.name, start.2.span⟩,
            .closed start.2.name (.empty 1034)] := by
  have hscan := scan_oversized (.refl _) rfl longNameSource_rest longName_not_fits
  rw [longNameSource_size] at hscan
  exact ⟨longName_not_fits, hscan⟩

/-- The void element behind the tag is not opened; what is left is text, and a warning. -/
theorem scan_longName_swallows :
    (∀ tag unary, .opened tag unary ∉ scan longNameSource) ∧
      .warned ⟨.malformedTag (fragment (longName.chars ++ "x<br>".toList)), ⟨0, 1034⟩⟩ ∈
        scan longNameSource := by
  have hstuck : (ofText longNameSource).Stuck :=
    stuck_of_not_fits rfl longNameSource_rest longName_not_fits
  have hplace : (ofText longNameSource).cursor.At longNameSource := Cursor.at_ofText _
  have hsize : (ofText longNameSource).cursor.offset +
      Text.byteLength (longName.chars ++ "x<br>".toList) = 1034 := by
    rw [← longNameSource_rest, hplace.offset_add, longNameSource_size]
  have hscan := (Leads.refl (ofText longNameSource)).scan_eq_of_stuck hstuck
  simp only [malformed, Cursor.advance, longNameSource_rest, hsize] at hscan
  have hopened : (ofText longNameSource).opened = [] := rfl
  have hoffset : (ofText longNameSource).cursor.offset = 0 := rfl
  rw [hscan, hopened, hoffset]
  exact ⟨by simp [closeRest], by simp⟩

end TemplateMarkup
