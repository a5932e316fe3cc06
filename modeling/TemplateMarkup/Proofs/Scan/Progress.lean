import Mathlib.Data.List.Infix
import TemplateMarkup.Proofs.Scan.Content
import TemplateMarkup.Proofs.Scan.Course

/-!
# The progress of a reading

Text is read up to the next place that looks like markup, and there the readers of declarations and
tags have to take over. Where they do not, nothing can be read any more. This file defines:

* `Cursor.Unreadable c` — at `c` stands a comment or a section that does not end, or a name behind
  an opening bracket that makes no start tag,
* `Scanner.Stuck s` — `s` reads markup at such a place,
* `Event.isMalformed event` — whether an event warns of malformed markup,

and shows that these are the only places where a reading gets stuck (`Scanner.stuck_iff`), that
every step moves on (`Scanner.Step.advances`), and what both come to for a whole source
(`scan_progress`). All this is about cursors, whose offsets are exact.
`OffsetScanner.reading_advances` carries it over to offsets in 32 bits, for sources of less than
4 GiB.
-/

namespace TemplateMarkup

/-! ## Declarations that do not end -/

namespace Declaration

variable {cs body : List Char} {d : Char}

theorem readDoctype?_eq_none (hd : d.toLower ≠ 'd') (cs : List Char) :
    readDoctype? ('<' :: '!' :: d :: cs) = none := by
  rw [Option.eq_none_iff_forall_ne_some]
  intro found hread
  rcases readDoctype?_eq_some_iff.1 hread with ⟨hdoctype, hcs⟩
  rcases hdoctype.head_eq with ⟨d', tail, htaken, hd'⟩
  rw [htaken, List.cons_append, List.cons_append, List.cons_append] at hcs
  obtain ⟨-, -, rfl, -⟩ : _ ∧ _ ∧ d = d' ∧ _ := by simpa only [List.cons.injEq] using hcs
  exact hd hd'

/-- A comment is not read only if it does not end. -/
theorem read?_comment_eq_none_iff :
    read? ("<!--".toList ++ body) = none ↔ ¬"-->".toList <:+: body := by
  have hother : readSection? ("<!--".toList ++ body) = none ∧
      readDoctype? ("<!--".toList ++ body) = none :=
    ⟨readSection?_eq_none (by simp), readDoctype?_eq_none (by decide) _⟩
  rw [← Text.breakOn?_eq_none_iff]
  cases hbreak : Text.breakOn? "-->".toList body with
  | none => simp only [read?, readComment?, Text.after?_append, hbreak, hother.1, hother.2]
  | some found => simp only [read?, readComment?, Text.after?_append, hbreak, reduceCtorEq]

/-- A bracketed section is not read only if it does not end. -/
theorem read?_section_eq_none_iff :
    read? ("<![".toList ++ body) = none ↔ ¬"]>".toList <:+: "<![".toList ++ body := by
  have hother : readComment? ("<![".toList ++ body) = none ∧
      readDoctype? ("<![".toList ++ body) = none :=
    ⟨readComment?_eq_none (by simp), readDoctype?_eq_none (by decide) _⟩
  -- The closing mark cannot overlap with the lead.
  have hlead : "]>".toList <:+: "<![".toList ++ body ↔ "]>".toList <:+: body := by
    simp [List.infix_cons_iff]
  rw [hlead, ← Text.breakOn?_eq_none_iff]
  cases hbreak : Text.breakOn? "]>".toList body with
  | none => simp only [read?, readSection?, Text.after?_append, hbreak, hother.1, hother.2]
  | some found =>
      simp only [read?, readSection?, Text.after?_append, hbreak, hother.1, reduceCtorEq]

end Declaration

theorem Tag.readName?_eq_none {c : Char} (hc : Tag.isPartStart c = false) (cs : List Char) :
    Tag.readName? (c :: cs) = none := by
  simp [Tag.readName?, Tag.readLongName?, Tag.readPart?, hc]

/-! ## Where nothing can be read -/

/-- Something starts like markup, and none of the readers can read it. -/
inductive Cursor.Unreadable (c : Cursor) : Prop where
  | openComment {body : List Char} :
      c.rest = "<!--".toList ++ body → ¬"-->".toList <:+: body → Unreadable c
  | openSection {body : List Char} :
      c.rest = "<![".toList ++ body → ¬"]>".toList <:+: c.rest → Unreadable c
  | noStartTag {cs : List Char} :
      c.rest = '<' :: cs → (Tag.readName? cs).isSome → StartTag.read? c = none → Unreadable c

namespace Cursor

variable {c : Cursor} {cs : List Char}

/-- Behind an opening bracket, tags go on with a name or with a slash. -/
theorem tags_eq_none (hrest : c.rest = '<' :: '!' :: cs) :
    EndTag.read? c = none ∧ StartTag.read? c = none := by
  have hname : Tag.readName? ('!' :: cs) = none := Tag.readName?_eq_none (by decide) cs
  exact ⟨by simp [EndTag.read?, hrest], by simp [StartTag.read?, hrest, hname]⟩

/-- A name stands behind an opening bracket, so there is neither a declaration nor an end tag. -/
theorem others_eq_none (hrest : c.rest = '<' :: cs) (hname : (Tag.readName? cs).isSome) :
    Declaration.read? c.rest = none ∧ EndTag.read? c = none := by
  have hne : ∀ d cs', Tag.isPartStart d = false → cs ≠ d :: cs' := by
    intro d cs' hd hcs
    rw [hcs, Tag.readName?_eq_none hd] at hname
    cases hname
  constructor
  · refine Declaration.read?_eq_none fun rest heq => ?_
    rw [hrest, List.cons.injEq] at heq
    exact hne '!' rest (by decide) heq.2
  · unfold EndTag.read?
    split
    · next cs' heq =>
        rw [hrest, List.cons.injEq] at heq
        exact absurd heq.2 (hne '/' cs' (by decide))
    · rfl

/-- No reader of markup reads on here, although markup starts here. -/
theorem unreadable_iff :
    c.Unreadable ↔
      Scanner.startsMarkup c.rest ∧ Declaration.read? c.rest = none ∧ EndTag.read? c = none ∧
        StartTag.read? c = none := by
  constructor
  · intro h
    cases h with
    | @openComment body hrest hbody =>
        have htags := tags_eq_none hrest
        rw [← Declaration.read?_comment_eq_none_iff, ← hrest] at hbody
        refine ⟨Scanner.startsMarkup_iff.2 ⟨_, hrest, .inl ?_⟩, hbody, htags.1, htags.2⟩
        exact Declaration.starts_iff.2 (.inl ⟨body, hrest.symm⟩)
    | @openSection body hrest hbody =>
        have htags := tags_eq_none hrest
        rw [hrest, ← Declaration.read?_section_eq_none_iff, ← hrest] at hbody
        refine ⟨Scanner.startsMarkup_iff.2 ⟨_, hrest, .inl ?_⟩, hbody, htags.1, htags.2⟩
        exact Declaration.starts_iff.2 (.inr ⟨body, hrest.symm⟩)
    | noStartTag hrest hname hstart =>
        have hothers := others_eq_none hrest hname
        exact ⟨Scanner.startsMarkup_iff.2 ⟨_, hrest, .inr (.inr hname)⟩, hothers.1, hothers.2,
          hstart⟩
  · intro ⟨hmarkup, hdecl, hend, hstart⟩
    -- What looks like markup: the start of a declaration, an end tag, or a name.
    rcases Scanner.startsMarkup_iff.1 hmarkup with ⟨cs, hrest, hstarts | hsome | hname⟩
    · rcases Declaration.starts_iff.1 hstarts with ⟨body, hbody⟩ | ⟨body, hbody⟩
      · rw [← hbody, Declaration.read?_comment_eq_none_iff] at hdecl
        exact .openComment hbody.symm hdecl
      · rw [← hbody, Declaration.read?_section_eq_none_iff, hbody] at hdecl
        exact .openSection hbody.symm hdecl
    · exfalso
      rcases Option.isSome_iff_exists.1 hsome with ⟨⟨tag, last⟩, hread⟩
      rcases EndTag.read?_eq_some_iff.1 hread with ⟨name, trailing, hwritten, htakes, _⟩
      -- What is read as an end tag does not depend on the offset.
      have htakes' : c.Takes (EndTag.chars name trailing)
          (c.advance (EndTag.chars name trailing) last.rest) :=
        takes_advance htakes.rest_eq
      have hsame := EndTag.read?_eq_some_iff.2 ⟨name, trailing, hwritten, htakes', rfl⟩
      rw [hend] at hsame
      cases hsame
    · exact .noStartTag hrest hname hstart

end Cursor

/-- Whether an event warns of malformed markup. -/
def Event.isMalformed : Event → Bool
  | .warned ⟨.malformedTag _, _⟩ => true
  | _ => false

namespace Scanner

open Event

variable {source : String} {s t next : Scanner} {events : List Event} {opened : List OpenTag}
  {span : Span}

/-- Markup is to be read, and none can be. -/
def Stuck (s : Scanner) : Prop :=
  rawName? s.opened = none ∧ s.cursor.Unreadable

/-- The text in front of some markup is empty just if markup starts at once. -/
theorem textOnto_nil_iff {cs : List Char} (hcs : cs ≠ []) :
    (textOnto [] cs).1 = [] ↔ startsMarkup cs := by
  rcases htext : textOnto [] cs with ⟨run, rest⟩
  rcases textOnto_eq_iff.1 htext with ⟨more, rfl, rfl, hrun⟩
  cases hrun with
  | stop hstop => simpa using hstop.resolve_left hcs
  | cons hnot _ => simpa using hnot

/-- There is something left to read and no step can be taken just where a reading is stuck. -/
theorem stuck_iff : Stuck s ↔ s.cursor.rest ≠ [] ∧ step? s = none := by
  rw [Stuck, Cursor.unreadable_iff, step?_eq_none_iff]
  constructor
  · intro ⟨hraw, hmarkup, hdecl, hend, hstart⟩
    have hrest : s.cursor.rest ≠ [] := by
      intro hnil
      rw [hnil] at hmarkup
      cases hmarkup
    exact ⟨hrest, hraw, hdecl, hend, hstart, (textOnto_nil_iff hrest).2 hmarkup⟩
  · intro ⟨hrest, hraw, hdecl, hend, hstart, htext⟩
    exact ⟨hraw, (textOnto_nil_iff hrest).1 htext, hdecl, hend, hstart⟩

/-! ## Steps -/

/-- Every step moves on in the source. -/
theorem Step.advances (h : Step s events next) (hrest : s.cursor.rest ≠ []) :
    s.cursor.offset < next.cursor.offset := by
  rcases h.exists_taken hrest with ⟨taken, htaken, htakes⟩
  have hpos := Text.byteLength_pos htaken
  calc
    s.cursor.offset < s.cursor.offset + Text.byteLength taken := Nat.lt_add_of_pos_right hpos
    _ = next.cursor.offset := htakes.offset_eq.symm

theorem not_malformed_closeMissing (span : Span) (opened : List OpenTag) :
    ∀ event ∈ opened.flatMap (closeMissing span), event.isMalformed = false := by
  intro event hevent
  rcases List.mem_flatMap.1 hevent with ⟨tag, _, hmem⟩
  simp only [closeMissing, List.mem_cons, List.not_mem_nil, or_false] at hmem
  rcases hmem with rfl | rfl
  · rfl
  · rfl

theorem not_malformed_closeNamed (name : String) (span : Span) (opened : List OpenTag) :
    ∀ event ∈ (closeNamed name span opened).1, event.isMalformed = false := by
  rcases exists_innermost name opened with hnone | ⟨inner, target, outer, rfl, hinner, htarget⟩
  · rw [closeNamed_of_none hnone]
    simp
  · rw [closeNamed_of_innermost hinner htarget]
    refine List.forall_mem_append.2 ⟨not_malformed_closeMissing span inner, ?_⟩
    simp [isMalformed]

theorem not_malformed_closeBefore (tag : StartTag) (ends : OpenTag → Bool)
    (opened : List OpenTag) :
    ∀ event ∈ (closeBefore tag ends opened).1, event.isMalformed = false := by
  unfold closeBefore
  split
  · simp
  · split
    · simp [isMalformed]
    · simp

theorem not_malformed_rawEvents (name : String) (body : List Char) (span : Span) :
    ∀ event ∈ rawEvents name body span, event.isMalformed = false := by
  unfold rawEvents
  split
  · simp
  · simp [isMalformed]

/-- A step warns of closed elements, never of malformed markup. -/
theorem Step.not_malformed (h : Step s events next) :
    ∀ event ∈ events, event.isMalformed = false := by
  cases h with
  | declaration _ _ => simp
  | endTag _ _ _ => exact not_malformed_closeNamed _ _ _
  | @startTag tag after _ _ _ _ =>
      refine List.forall_mem_append.2 ⟨List.forall_mem_append.2 ⟨?_, ?_⟩, by simp [isMalformed]⟩
      · exact not_malformed_closeBefore tag _ _
      · exact not_malformed_closeBefore tag _ _
  | text _ _ _ _ _ _ => simp [isMalformed]
  | rawRest _ _ => exact not_malformed_rawEvents _ _ _
  | rawEnded _ _ _ _ =>
      exact List.forall_mem_append.2
        ⟨not_malformed_rawEvents _ _ _, not_malformed_closeNamed _ _ _⟩

/-! ## The whole way -/

theorem Leads.not_malformed (h : Leads s events t) :
    ∀ event ∈ events, event.isMalformed = false := by
  induction h with
  | refl s => simp
  | step _ hstep _ ih => exact List.forall_mem_append.2 ⟨hstep.not_malformed, ih⟩

/-- A reading takes steps up to a scanner that is at the end of the source or stuck. -/
theorem Reads.leads_to_end (h : Reads s events) :
    ∃ front last, Leads s front last ∧
      (last.cursor.rest = [] ∧ events = front ++ closeRest last.cursor.offset last.opened ∨
        Stuck last) := by
  induction h with
  | @done s hrest => exact ⟨[], s, .refl s, .inl ⟨hrest, rfl⟩⟩
  | @malformed s hrest hnone => exact ⟨[], s, .refl s, .inr (stuck_iff.2 ⟨hrest, hnone⟩)⟩
  | @step s next events more hrest hstep _ ih =>
      rcases ih with ⟨front, last, hleads, hlast⟩
      refine ⟨events ++ front, last, .step hrest hstep hleads, hlast.imp_left ?_⟩
      intro ⟨hend, hmore⟩
      exact ⟨hend, by rw [hmore, List.append_assoc]⟩

/-- What is closed at the end are the start events that are still open, innermost first. -/
theorem Tracks.closeRest_eq {front : List Event} {opens : List Numbered}
    (h : Tracks front opened opens) (size : Nat) :
    closeRest size opened =
      opens.flatMap fun start =>
        [.warned ⟨.missingEndTag start.2.name, start.2.span⟩,
          .closed start.2.name (.empty size)] := by
  rw [← h.2, closeRest, List.flatMap_map]
  rfl

/-- The loop passes through all scanners on the way. -/
theorem Leads.run_eq (h : Leads s events t) (out : Array Event) :
    s.run out = t.run (out ++ events) := by
  induction h generalizing out with
  | refl s => simp
  | step hrest hstep _ ih =>
      rw [run, dif_neg hrest]
      split
      · next heq =>
          rw [step_iff.1 hstep] at heq
          cases heq
          rw [ih]
          exact congrArg _ (Array.ext' (by simp))
      · next heq => simp [step_iff.1 hstep] at heq

/-- Where a reading is stuck, the rest is a text with a warning, and all that is open is closed. -/
theorem Leads.scan_eq_of_stuck (h : Leads (ofText source) events s) (hstuck : Stuck s) :
    scan source = events ++ malformed s.cursor ++
      closeRest (Text.byteLength source.toList) s.opened := by
  have hsize := (h.place (Cursor.at_ofText source)).offset_add
  rcases stuck_iff.1 hstuck with ⟨hrest, hnone⟩
  have hreads := h.reads (.malformed hrest hnone)
  calc
    scan source = events ++ (malformed s.cursor ++
        closeRest (s.cursor.offset + Text.byteLength s.cursor.rest) s.opened) :=
      reads_iff.1 hreads
    _ = _ := by rw [hsize, List.append_assoc]

/-- Only the end of a stuck reading warns of malformed markup, and only once. -/
theorem countP_malformed_of_stuck (h : Leads (ofText source) events s) (hstuck : Stuck s) :
    (scan source).countP isMalformed = 1 := by
  have hevents := List.countP_eq_zero.2 fun event hevent =>
    Bool.eq_false_iff.1 (h.not_malformed event hevent)
  have hrest := List.countP_eq_zero.2 fun event hevent =>
    Bool.eq_false_iff.1 (not_malformed_closeMissing (.empty (Text.byteLength source.toList))
      s.opened event hevent)
  rw [h.scan_eq_of_stuck hstuck, List.countP_append, List.countP_append, hevents, closeRest, hrest]
  rfl

theorem countP_malformed_of_end (h : Leads (ofText source) events s) {size : Nat}
    (hscan : scan source = events ++ closeRest size s.opened) :
    (scan source).countP isMalformed = 0 := by
  rw [hscan, List.countP_eq_zero]
  intro event hevent
  rcases List.mem_append.1 hevent with hmem | hmem
  · simp [h.not_malformed event hmem]
  · simp [not_malformed_closeMissing _ _ event hmem]

/-- The steps of a source lead to its end, or to a place where nothing can be read. -/
theorem exists_last (source : String) :
    ∃ events last, Leads (ofText source) events last ∧
      (last.cursor = ⟨Text.byteLength source.toList, []⟩ ∧
          scan source = events ++ closeRest (Text.byteLength source.toList) last.opened ∨
        Stuck last) := by
  rcases (reads_scan source).leads_to_end with ⟨events, last, hleads, hend⟩
  refine ⟨events, last, hleads, hend.imp_left fun ⟨hrest, hscan⟩ => ?_⟩
  have hoffset : last.cursor.offset = Text.byteLength source.toList := by
    simpa [hrest] using (hleads.place (Cursor.at_ofText source)).offset_add
  exact ⟨by rw [← hoffset, ← hrest], hoffset ▸ hscan⟩

/-- A scanner is at the end, is stuck or moves on. -/
theorem end_or_stuck_or_advances (s : Scanner) :
    s.cursor.rest = [] ∨ Stuck s ∨
      ∃ more next, step? s = some (more, next) ∧ s.cursor.offset < next.cursor.offset := by
  by_cases hrest : s.cursor.rest = []
  · exact .inl hrest
  · right
    cases hstep : step? s with
    | none => exact .inl (stuck_iff.2 ⟨hrest, hstep⟩)
    | some result =>
        have hnext : Step s result.1 result.2 := step_iff.2 hstep
        exact .inr ⟨result.1, result.2, rfl, hnext.advances hrest⟩

/-- There is a warning of malformed markup just if the reading gets stuck, and never more than
one. -/
theorem countP_malformed (source : String) :
    (scan source).countP isMalformed ≤ 1 ∧
      (0 < (scan source).countP isMalformed ↔
        ∃ events s, Leads (ofText source) events s ∧ Stuck s) := by
  rcases exists_last source with ⟨events, last, hleads, ⟨_, hscan⟩ | hstuck⟩
  · have hcount := countP_malformed_of_end hleads hscan
    refine ⟨by omega, by omega, ?_⟩
    -- A stuck scanner would have left a warning.
    intro ⟨events', s, hleads', hstuck⟩
    have hone := countP_malformed_of_stuck hleads' hstuck
    omega
  · have hcount := countP_malformed_of_stuck hleads hstuck
    exact ⟨by omega, fun _ => ⟨events, last, hleads, hstuck⟩, fun _ => by omega⟩

end Scanner

open Scanner

/-- A reading ends, and it ends at the end of the source. All scanners on its way stand between
characters of the source, and each is at the end, is stuck or moves on by one step. There is a
warning of malformed markup just if some scanner on the way is stuck, and then it is the only one:
what is left becomes a text, the warning spans that text, and all that is still open is closed,
innermost first, with a warning each. -/
theorem scan_progress (source : String) :
    (∀ events s, Leads (ofText source) events s →
      scan source = (s.run events.toArray).toList ∧ s.cursor.At source ∧
        (s.cursor.rest = [] ∨ s.Stuck ∨
          ∃ more next, s.step? = some (more, next) ∧ s.cursor.offset < next.cursor.offset)) ∧
    (∃ events last, Leads (ofText source) events last ∧
      (last.cursor = ⟨Text.byteLength source.toList, []⟩ ∧
          scan source = events ++ closeRest (Text.byteLength source.toList) last.opened ∨
        last.Stuck)) ∧
    (scan source).countP Event.isMalformed ≤ 1 ∧
    ((∃ event ∈ scan source, event.isMalformed) ↔
      ∃ events s, Leads (ofText source) events s ∧ s.Stuck) ∧
    ∀ events s, Leads (ofText source) events s → s.Stuck →
      ∃ opens, Event.Enclosing events opens ∧
        scan source = events ++
          [.text (String.ofList s.cursor.rest)
              ⟨s.cursor.offset, Text.byteLength source.toList⟩,
            .warned ⟨.malformedTag (fragment s.cursor.rest),
              ⟨s.cursor.offset, Text.byteLength source.toList⟩⟩] ++
          opens.flatMap fun start =>
            [.warned ⟨.missingEndTag start.2.name, start.2.span⟩,
              .closed start.2.name (.empty (Text.byteLength source.toList))] := by
  have hplace {events : List Event} {s : Scanner} (h : Leads (ofText source) events s) :
      s.cursor.At source :=
    h.place (Cursor.at_ofText source)
  refine ⟨?_, exists_last source, (countP_malformed source).1, ?_, ?_⟩
  · intro events s hleads
    have hrun : scan source = (s.run (#[] ++ events)).toList :=
      congrArg Array.toList (hleads.run_eq #[])
    exact ⟨by simpa using hrun, hplace hleads, end_or_stuck_or_advances s⟩
  · rw [← List.countP_pos_iff]
    exact (countP_malformed source).2
  · intro events s hleads hstuck
    rcases hleads.enclosing (tracks_ofText source) with ⟨opens, htracks⟩
    refine ⟨opens, htracks.1, ?_⟩
    rw [hleads.scan_eq_of_stuck hstuck, htracks.closeRest_eq]
    simp only [malformed, Cursor.advance, (hplace hleads).offset_add]

/-- The start tag does not end: the list in front of it is closed as well. -/
example :
    scan "<ul>x<li a" =
      [.opened ⟨"ul", [], false, ⟨0, 4⟩⟩ false, .text "x" ⟨4, 5⟩, .text "<li a" ⟨5, 10⟩,
        .warned ⟨.malformedTag "<li a", ⟨5, 10⟩⟩, .warned ⟨.missingEndTag "ul", ⟨0, 4⟩⟩,
        .closed "ul" (.empty 10)] := by
  decide +kernel

end TemplateMarkup
