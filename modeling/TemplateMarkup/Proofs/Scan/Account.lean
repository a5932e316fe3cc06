import TemplateMarkup.Proofs.Scan.Balance
import TemplateMarkup.Proofs.Tag.Extent

/-!
# The events account for the whole source

Read in order, the spans of the events follow each other through the source, and what stands between
two of them leaves no event for a reason. This file defines:

* `Event.Skipped stack cs` — `cs` consists of declarations and of end tags that close none of the
  elements in `stack`,
* `Event.Gap last next stack cs` — `cs` may stand between two events with spans,
* `Event.Accounted source last stack events` — the events go on from `last` through the source, up
  to its end.

The invariant of a reading is `Scanner.Pending`: what has been passed since the last event can be
the start of a gap. From it, `scan_accounted` follows by induction on the reading.
-/

namespace TemplateMarkup
namespace Event

/-! ## Gaps -/

section Gap

variable {stack : List String} {cs ds : List Char} {last next : Option Event}

/-- Declarations, and end tags that close nothing while the names of `stack` are open. -/
inductive Skipped (stack : List String) : List Char → Prop where
  | nil : Skipped stack []
  | declaration {taken rest : List Char} :
      Declaration.Complete taken → Skipped stack rest → Skipped stack (taken ++ rest)
  | endTag {name trailing rest : List Char} :
      EndTag.Written name trailing →
      (∀ around ∈ stack, ¬Tag.sameName around (String.ofList name)) →
      Skipped stack rest → Skipped stack (EndTag.chars name trailing ++ rest)

theorem Skipped.append (h : Skipped stack cs) (hmore : Skipped stack ds) :
    Skipped stack (cs ++ ds) := by
  induction h with
  | nil => exact hmore
  | declaration hcomplete _ ih =>
      rw [List.append_assoc]
      exact .declaration hcomplete ih
  | endTag hwritten hnone _ ih =>
      rw [List.append_assoc]
      exact .endTag hwritten hnone ih

/-- The text between two events with spans, or at an end of the source. -/
inductive Gap (last next : Option Event) (stack : List String) : List Char → Prop where
  | skipped {cs : List Char} : Skipped stack cs → Gap last next stack cs
  /-- Some elements drop a line feed right behind their start tag. -/
  | newline {tag : StartTag} {cs : List Char} :
      last = some (.opened tag false) → Tag.dropsFirstNewline tag.name → Skipped stack cs →
      Gap last next stack ('\n' :: cs)
  /-- The content of a text area, if nothing of it is left without the marks of comments and of
  character data. -/
  | textarea {tag : StartTag} {name : String} {span : Span} {newline body : List Char} :
      last = some (.opened tag false) → tag.name.toLower = "textarea" →
      next = some (.closed name span) → newline = [] ∨ newline = ['\n'] →
      RawText.unwrapAll body = [] → Gap last next stack (newline ++ body)

/-- In front of no event in particular, a gap may be followed by any. -/
theorem Gap.of_none (h : Gap last none stack cs) (next : Option Event) :
    Gap last next stack cs := by
  cases h with
  | skipped hskipped => exact .skipped hskipped
  | newline hlast hdrops hskipped => exact .newline hlast hdrops hskipped
  | textarea _ _ hnext _ _ => cases hnext

theorem Gap.append (h : Gap last none stack cs) (hmore : Skipped stack ds) :
    Gap last none stack (cs ++ ds) := by
  cases h with
  | skipped hskipped => exact .skipped (hskipped.append hmore)
  | newline hlast hdrops hskipped => exact .newline hlast hdrops (hskipped.append hmore)
  | textarea _ _ hnext _ _ => cases hnext

end Gap

/-! ## Accounts -/

/-- Where the last event with a span stops. -/
def stopOf : Option Event → Nat
  | some (.opened tag _) => tag.span.stop
  | some (.closed _ span) => span.stop
  | some (.text _ span) => span.stop
  | _ => 0

/-- The content of a text event, where `body` stands in the source: only in a text area are the
marks of comments and of character data taken off. -/
def contentOf (stack : List String) (body : List Char) : List Char :=
  if stack.head?.map String.toLower = some "textarea" then RawText.unwrapAll body else body

/-- From `last` on, while the names of `stack` are open, the events account for all of the source:
each has a place in it, behind a gap, and behind the place of the one before. Only end events may
share their place, that of the end tag that closes several elements. -/
inductive Accounted (source : String) : Option Event → List String → List Event → Prop where
  | done {last : Option Event} {stack : List String} {gap : List Char} :
      Span.Covers source ⟨stopOf last, Text.byteLength source.toList⟩ gap →
      Gap last none stack gap → Accounted source last stack []
  | warned {last : Option Event} {stack : List String} {warning : Warning}
      {events : List Event} :
      Accounted source last stack events →
      Accounted source last stack (.warned warning :: events)
  | opened {last : Option Event} {stack : List String} {tag : StartTag} {unary : Bool}
      {gap inside : List Char} {events : List Event} :
      Span.Covers source ⟨stopOf last, tag.span.start⟩ gap →
      Gap last (some (.opened tag unary)) stack gap →
      Span.Covers source tag.span inside → inside ≠ [] →
      Accounted source (some (.opened tag unary)) (if unary then stack else tag.name :: stack)
        events →
      Accounted source last stack (.opened tag unary :: events)
  | closed {last : Option Event} {outer : List String} {name : String} {span : Span}
      {gap inside : List Char} {events : List Event} :
      Span.Covers source ⟨stopOf last, span.start⟩ gap →
      Gap last (some (.closed name span)) (name :: outer) gap →
      Span.Covers source span inside →
      Accounted source (some (.closed name span)) outer events →
      Accounted source last (name :: outer) (.closed name span :: events)
  | shared {inner name : String} {outer : List String} {span : Span} {events : List Event} :
      Accounted source (some (.closed name span)) outer events →
      Accounted source (some (.closed inner span)) (name :: outer) (.closed name span :: events)
  | text {last : Option Event} {stack : List String} {content : String} {span : Span}
      {gap body : List Char} {events : List Event} :
      Span.Covers source ⟨stopOf last, span.start⟩ gap →
      Gap last (some (.text content span)) stack gap →
      Span.Covers source span body → content = String.ofList (contentOf stack body) → body ≠ [] →
      Accounted source (some (.text content span)) stack events →
      Accounted source last stack (.text content span :: events)

end Event

namespace Scanner

open Event

variable {source : String} {s next : Scanner} {events more : List Event} {last : Option Event}
  {gap : List Char} {closing outer : List OpenTag} {span : Span}

/-! ## Steps read forward -/

theorem Step.takes (h : Step s events next) : ∃ taken, s.cursor.Takes taken next.cursor := by
  cases h with
  | declaration _ hdecl =>
      exact ⟨_, Cursor.takes_advance (Declaration.read?_eq_some_iff.1 hdecl).2⟩
  | endTag _ _ hend =>
      rcases EndTag.read?_eq_some_iff.1 hend with ⟨_, _, _, htakes, _⟩
      exact ⟨_, htakes⟩
  | @startTag tag after _ _ _ hstart =>
      rcases StartTag.read?_takes hstart with ⟨taken, _, htakes, _⟩
      show ∃ taken, s.cursor.Takes taken (dropNewline tag after)
      rcases dropNewline_cases tag after with heq | ⟨cs, hcs, _, _, heq⟩
      · rw [heq]
        exact ⟨taken, htakes⟩
      · rw [heq]
        exact ⟨_, htakes.trans (Cursor.takes_advance hcs)⟩
  | text _ _ _ _ htext _ =>
      exact ⟨_, Cursor.takes_advance (by simpa [htext] using textOnto_eq [] s.cursor.rest)⟩
  | rawRest _ _ => exact ⟨_, Cursor.takes_advance (by simp)⟩
  | rawEnded _ hend hstop hafter =>
      have hsplit := (RawText.end?_eq_some hend).1
      rw [List.append_assoc] at hsplit
      subst hstop hafter
      exact ⟨_, (Cursor.takes_advance hsplit).trans (Cursor.takes_advance rfl)⟩

theorem Step.place (h : Step s events next) (hplace : s.cursor.At source) :
    next.cursor.At source := by
  rcases h.takes with ⟨taken, htakes⟩
  exact hplace.takes htakes

/-! ## Closing elements -/

@[simp] theorem names_append (inner outer : List OpenTag) :
    names (inner ++ outer) = names inner ++ names outer :=
  List.map_append

/-- Behind an end event, further elements are closed in the same place. -/
theorem Closes.accounted_shared (h : Closes span closing events) (inner : String)
    (hmore : ∀ name, Accounted source (some (.closed name span)) (names outer) more) :
    Accounted source (some (.closed inner span)) (names (closing ++ outer)) (events ++ more) := by
  induction h generalizing inner with
  | nil => exact hmore inner
  | own _ ih => exact .shared (ih _)
  | warned _ ih => exact .warned (.shared (ih _))

/-- The first end event has its place behind the gap, the others share it. -/
theorem Closes.accounted {inside : List Char} (h : Closes span closing events)
    (hne : closing ≠ []) (hcovers : Span.Covers source ⟨stopOf last, span.start⟩ gap)
    (hgap : ∀ name, Gap last (some (.closed name span)) (names (closing ++ outer)) gap)
    (hspan : Span.Covers source span inside)
    (hmore : ∀ name, Accounted source (some (.closed name span)) (names outer) more) :
    Accounted source last (names (closing ++ outer)) (events ++ more) := by
  cases h with
  | nil => exact absurd rfl hne
  | @own tag _ _ hcloses =>
      have hshared := hcloses.accounted_shared tag.name hmore
      exact .closed hcovers (hgap tag.name) hspan hshared
  | @warned tag _ _ _ hcloses =>
      have hshared := hcloses.accounted_shared tag.name hmore
      exact .warned (.closed hcovers (hgap tag.name) hspan hshared)

/-! ## Where a reading stands -/

/-- Since the last event, `gap` has been read up to the cursor. -/
def Passed (source : String) (last : Option Event) (gap : List Char) (c : Cursor) : Prop :=
  ∃ start : Cursor, start.At source ∧ start.offset = stopOf last ∧ start.Takes gap c

theorem passed_nil {c : Cursor} (h : c.At source) (hoffset : c.offset = stopOf last) :
    Passed source last [] c :=
  ⟨c, h, hoffset, .refl c⟩

theorem Passed.place {c : Cursor} (h : Passed source last gap c) : c.At source := by
  rcases h with ⟨start, hstart, _, htakes⟩
  exact hstart.takes htakes

theorem Passed.takes {c d : Cursor} {taken : List Char} (h : Passed source last gap c)
    (htaken : c.Takes taken d) : Passed source last (gap ++ taken) d := by
  rcases h with ⟨start, hstart, hoffset, htakes⟩
  exact ⟨start, hstart, hoffset, htakes.trans htaken⟩

theorem Passed.covers {c : Cursor} (h : Passed source last gap c) :
    Span.Covers source ⟨stopOf last, c.offset⟩ gap := by
  rcases h with ⟨start, hstart, hoffset, htakes⟩
  rw [← hoffset]
  exact hstart.covers htakes

/-- What has been read since the last event can be the start of a gap, or all of one. -/
inductive Waiting (last : Option Event) (s : Scanner) (gap : List Char) : Prop where
  | markup :
      (∀ tag ∈ s.opened, Tag.isRawText tag.name = false) →
      Gap last none (names s.opened) gap → Waiting last s gap
  /-- Raw content follows its start tag. -/
  | raw {tag : StartTag} {outer : List OpenTag} :
      last = some (.opened tag false) → s.opened = ⟨tag.name, tag.span⟩ :: outer →
      Tag.isRawText tag.name → (∀ tag ∈ outer, Tag.isRawText tag.name = false) →
      gap = [] ∨ (gap = ['\n'] ∧ Tag.dropsFirstNewline tag.name) → Waiting last s gap
  /-- Raw content has been read up to the end of the source. -/
  | ended :
      s.cursor.rest = [] → s.opened ≠ [] →
      (∀ name span, Gap last (some (.closed name span)) (names s.opened) gap) →
      Waiting last s gap

/-- A scanner in the source, at a place to which the last event and a gap have led. -/
def Pending (source : String) (last : Option Event) (s : Scanner) : Prop :=
  ∃ gap, Passed source last gap s.cursor ∧ Waiting last s gap

theorem pending_ofText (source : String) : Pending source none (ofText source) :=
  ⟨[], passed_nil (Cursor.at_ofText source) rfl, .markup (by simp [ofText]) (.skipped .nil)⟩

/-- Right behind an event, with no raw text element open, nothing has been passed. -/
theorem pending_of_markup (hplace : s.cursor.At source) (hoffset : s.cursor.offset = stopOf last)
    (hraw : ∀ tag ∈ s.opened, Tag.isRawText tag.name = false) : Pending source last s :=
  ⟨[], passed_nil hplace hoffset, .markup hraw (.skipped .nil)⟩

theorem rawName?_eq_none (h : ∀ tag ∈ s.opened, Tag.isRawText tag.name = false) :
    rawName? s.opened = none := by
  cases hopened : s.opened with
  | nil => rfl
  | cons tag outer => simp [rawName?, h tag (by simp [hopened])]

theorem rawName?_cons {tag : OpenTag} (h : Tag.isRawText tag.name) :
    rawName? (tag :: outer) = some tag.name.toLower := by
  simp [rawName?, h]

/-- Where markup is read, only markup has been passed. -/
theorem Pending.markup (h : Pending source last s) (hrest : s.cursor.rest ≠ [])
    (hraw : rawName? s.opened = none) :
    (∀ tag ∈ s.opened, Tag.isRawText tag.name = false) ∧
      ∃ gap, Passed source last gap s.cursor ∧ Gap last none (names s.opened) gap := by
  rcases h with ⟨gap, hpassed, hwaiting⟩
  cases hwaiting with
  | markup hopened hgap => exact ⟨hopened, gap, hpassed, hgap⟩
  | raw _ hopened htag _ _ =>
      rw [hopened, rawName?_cons htag] at hraw
      cases hraw
  | ended hend _ _ => exact absurd hend hrest

/-- Where raw content is read, it starts behind its start tag. -/
theorem Pending.raw {name : String} (h : Pending source last s) (hrest : s.cursor.rest ≠ [])
    (hraw : rawName? s.opened = some name) :
    ∃ tag outer newline, last = some (.opened tag false) ∧
      s.opened = ⟨tag.name, tag.span⟩ :: outer ∧ name = tag.name.toLower ∧
      Tag.isRawText tag.name ∧ (∀ tag ∈ outer, Tag.isRawText tag.name = false) ∧
      (newline = [] ∨ (newline = ['\n'] ∧ Tag.dropsFirstNewline tag.name)) ∧
      Passed source last newline s.cursor := by
  rcases h with ⟨gap, hpassed, hwaiting⟩
  cases hwaiting with
  | markup hopened _ =>
      rw [rawName?_eq_none hopened] at hraw
      cases hraw
  | @raw tag outer hlast hopened htag houter hgap =>
      rw [hopened, rawName?_cons htag] at hraw
      exact ⟨tag, outer, gap, hlast, hopened, (Option.some.inj hraw).symm, htag, houter, hgap,
        hpassed⟩
  | ended hend _ _ => exact absurd hend hrest

/-! ## Raw content -/

theorem rawText_names {name : String} (h : Tag.isRawText name) :
    name.toLower = "script" ∨ name.toLower = "style" ∨ name.toLower = "textarea" := by
  simpa [Tag.isRawText, Tag.rawTextTags] using h

/-- Outside of raw text elements, text events carry what stands in the source. -/
theorem contentOf_eq (h : ∀ tag ∈ s.opened, Tag.isRawText tag.name = false) (body : List Char) :
    contentOf (names s.opened) body = body := by
  unfold contentOf
  split
  · next harea =>
      cases hopened : s.opened with
      | nil => simp [hopened] at harea
      | cons tag outer =>
          have htag := h tag (by simp [hopened])
          rw [hopened] at harea
          simp [Tag.isRawText, Tag.rawTextTags, Option.some.inj harea] at htag
  · rfl

/-- Of the raw text elements, text areas alone do not keep the marks. -/
theorem keepsWrappers_iff {name : String} (h : Tag.isRawText name) :
    Tag.keepsWrappers name.toLower ↔ name.toLower ≠ "textarea" := by
  rcases rawText_names h with hname | hname | hname
  all_goals
    rw [hname]
    decide +kernel

theorem content_eq {name : String} (h : Tag.isRawText name) (stack : List String)
    (body : List Char) :
    RawText.content name.toLower body = contentOf (name :: stack) body := by
  by_cases harea : name.toLower = "textarea"
  · have hkeeps : ¬Tag.keepsWrappers name.toLower := by
      rw [keepsWrappers_iff h]
      exact not_not_intro harea
    rw [RawText.content, if_neg hkeeps]
    simp [contentOf, harea]
  · rw [RawText.content, if_pos ((keepsWrappers_iff h).2 harea)]
    simp [contentOf, harea]

theorem unwrap_nil {lead tail : List Char} (hlead : lead ≠ []) :
    RawText.unwrap lead tail [] hlead = [] := by
  have hnone : Text.breakOn? lead [] = none := by
    rw [Option.eq_none_iff_forall_ne_some]
    rintro ⟨before, rest⟩ h
    have hsplit := (Text.breakOn?_eq_some h).symm
    rw [List.append_assoc, List.append_eq_nil_iff, List.append_eq_nil_iff] at hsplit
    exact hlead hsplit.2.1
  rw [RawText.unwrap]
  split
  · rfl
  · next hsome =>
      rw [hnone] at hsome
      cases hsome

theorem contentOf_nil (stack : List String) : contentOf stack [] = [] := by
  unfold contentOf RawText.unwrapAll
  simp only [unwrap_nil, ite_self]

/-- Raw content leaves a text event, or is a gap in front of the end event. -/
theorem rawEvents_accounted {tag : StartTag} {stack : List String} {newline body : List Char}
    {c d : Cursor} (htag : Tag.isRawText tag.name) (hlast : last = some (.opened tag false))
    (hnewline : newline = [] ∨ (newline = ['\n'] ∧ Tag.dropsFirstNewline tag.name))
    (hpassed : Passed source last newline c) (hbody : c.Takes body d)
    (hmore : ∀ last' gap, Passed source last' gap d →
      (∀ name span, Gap last' (some (.closed name span)) (tag.name :: stack) gap) →
      Accounted source last' (tag.name :: stack) more) :
    Accounted source last (tag.name :: stack)
      (rawEvents tag.name.toLower body ⟨c.offset, d.offset⟩ ++ more) := by
  have hgap : ∀ next, Gap last next (tag.name :: stack) newline := by
    intro next
    rcases hnewline with rfl | ⟨rfl, hdrops⟩
    · exact .skipped .nil
    · exact .newline hlast hdrops .nil
  have hcontent := content_eq htag stack body
  unfold rawEvents
  split
  · next hnil =>
      refine hmore last (newline ++ body) (hpassed.takes hbody) fun name span => ?_
      rw [hnil] at hcontent
      by_cases harea : tag.name.toLower = "textarea"
      · have hunwrap : RawText.unwrapAll body = [] := by
          simpa [contentOf, harea] using hcontent.symm
        have hcases : newline = [] ∨ newline = ['\n'] := hnewline.imp_right And.left
        exact .textarea hlast harea rfl hcases hunwrap
      · -- Elsewhere the marks are kept, so the content was empty.
        have hempty : body = [] := by
          simpa [contentOf, harea] using hcontent.symm
        rw [hempty, List.append_nil]
        exact hgap _
  · next text hne =>
      have hbody' : body ≠ [] := by
        rintro rfl
        rw [contentOf_nil] at hcontent
        exact hne hcontent
      refine .text hpassed.covers (hgap _) (hpassed.place.covers hbody) (by rw [hcontent])
        hbody' ?_
      exact hmore _ [] (passed_nil (hpassed.place.takes hbody) rfl) fun _ _ => .skipped .nil

/-! ## Steps -/

/-- Elements that are closed at the cursor, behind a gap. -/
theorem Closes.accounted_pending {d : Cursor} {inside : List Char}
    (h : Closes ⟨s.cursor.offset, d.offset⟩ closing events) (hne : closing ≠ [])
    (hopened : s.opened = closing ++ outer) (hpassed : Passed source last gap s.cursor)
    (hgap : ∀ name span, Gap last (some (.closed name span)) (names s.opened) gap)
    (hinside : s.cursor.Takes inside d)
    (hmore : ∀ name, Accounted source (some (.closed name ⟨s.cursor.offset, d.offset⟩))
      (names outer) more) :
    Accounted source last (names s.opened) (events ++ more) := by
  rw [hopened] at hgap ⊢
  exact h.accounted hne hpassed.covers (fun name => hgap name _) (hpassed.place.covers hinside)
    hmore

/-- At the end of the source, what is open is closed there. -/
theorem Pending.accounted_closeRest (h : Pending source last s) (hrest : s.cursor.rest = []) :
    Accounted source last (names s.opened) (closeRest s.cursor.offset s.opened) := by
  rcases h with ⟨gap, hpassed, hwaiting⟩
  have hend : s.cursor.offset = Text.byteLength source.toList := by
    rcases hpassed.place with ⟨front, hsource, hoffset⟩
    rw [hsource, hrest, List.append_nil, hoffset]
  by_cases hopened : s.opened = []
  · cases hwaiting with
    | markup _ hgap =>
        rw [hopened] at hgap ⊢
        exact .done (hend ▸ hpassed.covers) hgap
    | raw _ hcons _ _ _ =>
        rw [hopened] at hcons
        cases hcons
    | ended _ hne _ => exact absurd hopened hne
  · have hgap : ∀ name span, Gap last (some (.closed name span)) (names s.opened) gap := by
      intro name span
      cases hwaiting with
      | markup _ hgap => exact hgap.of_none _
      | raw hlast hcons htag _ hnewline =>
          rcases hnewline with rfl | ⟨rfl, hdrops⟩
          · exact .skipped .nil
          · exact .newline hlast hdrops .nil
      | ended _ _ hgap => exact hgap name span
    have hcloses := closes_closeAll (.empty s.cursor.offset) s.opened
    have hdone : ∀ name,
        Accounted source (some (.closed name (.empty s.cursor.offset))) (names []) [] := by
      intro name
      have hnothing : Passed source (some (.closed name (.empty s.cursor.offset))) [] s.cursor :=
        passed_nil hpassed.place rfl
      exact .done (hend ▸ hnothing.covers) (.skipped .nil)
    have hall := hcloses.accounted_pending (d := s.cursor) hopened (List.append_nil _).symm
      hpassed hgap (.refl s.cursor) hdone
    rwa [List.append_nil] at hall

/-- Behind a start tag, markup follows or raw content. -/
theorem pending_openedBy {tag : StartTag} {after : Cursor} {opened : List OpenTag}
    (hplace : after.At source) (hstop : after.offset = tag.span.stop)
    (hremaining : ∀ around ∈ remaining tag opened, Tag.isRawText around.name = false) :
    Pending source (some (.opened tag (isUnary tag)))
      ⟨dropNewline tag after, openedBy tag opened⟩ := by
  have hafter : Passed source (some (.opened tag (isUnary tag))) [] after :=
    passed_nil hplace hstop
  have hdropped : ∃ newline,
      Passed source (some (.opened tag (isUnary tag))) newline (dropNewline tag after) ∧
      (newline = [] ∨
        (newline = ['\n'] ∧ isUnary tag = false ∧ Tag.dropsFirstNewline tag.name)) := by
    rcases dropNewline_cases tag after with heq | ⟨cs, hcs, hunary, hdrops, heq⟩
    · rw [heq]
      exact ⟨[], hafter, .inl rfl⟩
    · rw [heq]
      exact ⟨['\n'], hafter.takes (Cursor.takes_advance hcs), .inr ⟨rfl, hunary, hdrops⟩⟩
  rcases hdropped with ⟨newline, hpassed, hnewline⟩
  refine ⟨newline, hpassed, ?_⟩
  cases hunary : isUnary tag with
  | true =>
      have hopened : openedBy tag opened = remaining tag opened := by simp [openedBy, hunary]
      have hnil : newline = [] := by simpa [hunary] using hnewline
      rw [hopened, hnil]
      exact .markup hremaining (.skipped .nil)
  | false =>
      have hopened : openedBy tag opened = ⟨tag.name, tag.span⟩ :: remaining tag opened := by
        simp [openedBy, hunary]
      rw [hopened]
      cases hraw : Tag.isRawText tag.name with
      | true => exact .raw rfl rfl hraw hremaining (hnewline.imp_right fun h => ⟨h.1, h.2.2⟩)
      | false =>
          refine .markup (List.forall_mem_cons.2 ⟨hraw, hremaining⟩) ?_
          rcases hnewline with rfl | ⟨rfl, _, hdrops⟩
          · exact .skipped .nil
          · exact .newline rfl hdrops .nil

/-- A start tag is accounted for, with the elements that it ends. -/
theorem Pending.accounted_openTag {tag : StartTag} {after : Cursor} (h : Pending source last s)
    (hrest : s.cursor.rest ≠ []) (hraw : rawName? s.opened = none)
    (hread : StartTag.read? s.cursor = some (tag, after))
    (hmore : ∀ last', Pending source last' (openTag tag after s.opened).2 →
      Accounted source last' (names (openTag tag after s.opened).2.opened) more) :
    Accounted source last (names s.opened) ((openTag tag after s.opened).1 ++ more) := by
  rcases h.markup hrest hraw with ⟨hopened, gap, hpassed, hgap⟩
  rcases StartTag.read?_takes hread with ⟨taken, hne, htaken, hspan⟩
  rcases closes_openTag tag after s.opened with ⟨closing, ended, hsplit, hcloses, heq⟩
  rw [heq] at hmore ⊢
  rw [hspan] at hcloses
  have hcovers : Span.Covers source tag.span taken := hspan ▸ hpassed.place.covers htaken
  have hremaining : ∀ around ∈ remaining tag s.opened, Tag.isRawText around.name = false := by
    intro around haround
    exact hopened around (hsplit ▸ List.mem_append_right closing haround)
  have hnames : names (openedBy tag s.opened) =
      if isUnary tag then names (remaining tag s.opened)
      else tag.name :: names (remaining tag s.opened) := by
    unfold openedBy
    split <;> rfl
  have hbehind := hmore _ (pending_openedBy (hpassed.place.takes htaken) (by rw [hspan]) hremaining)
  rw [hnames] at hbehind
  rw [List.append_assoc]
  by_cases hclosing : closing = []
  · -- Nothing is ended, so the gap is in front of the start tag.
    subst hclosing
    cases hcloses
    rw [hsplit, List.nil_append] at hgap ⊢
    exact .opened (by rw [hspan]; exact hpassed.covers) (hgap.of_none _) hcovers hne hbehind
  · refine hcloses.accounted_pending (d := s.cursor) hclosing hsplit hpassed
      (fun name span => hgap.of_none _) (.refl s.cursor) fun name => ?_
    have hnothing : Passed source
        (some (.closed name ⟨s.cursor.offset, s.cursor.offset⟩)) [] s.cursor :=
      passed_nil hpassed.place rfl
    exact .opened (by rw [hspan]; exact hnothing.covers) (.skipped .nil) hcovers hne hbehind

/-- An end tag is accounted for by the elements that it closes, or it is part of a gap. -/
theorem Pending.accounted_endTag {tag : EndTag} {after : Cursor} (h : Pending source last s)
    (hrest : s.cursor.rest ≠ []) (hraw : rawName? s.opened = none)
    (hread : EndTag.read? s.cursor = some (tag, after))
    (hmore : ∀ last', Pending source last' ⟨after, (closeNamed tag.name tag.span s.opened).2⟩ →
      Accounted source last' (names (closeNamed tag.name tag.span s.opened).2) more) :
    Accounted source last (names s.opened)
      ((closeNamed tag.name tag.span s.opened).1 ++ more) := by
  rcases h.markup hrest hraw with ⟨hopened, gap, hpassed, hgap⟩
  rcases EndTag.read?_eq_some_iff.1 hread with ⟨name, trailing, hwritten, htakes, rfl⟩
  rcases closes_closeNamed (String.ofList name) ⟨s.cursor.offset, after.offset⟩ s.opened with
    ⟨closing, hsplit, hcloses, hnone⟩
  generalize closeNamed (String.ofList name) ⟨s.cursor.offset, after.offset⟩ s.opened = closed
    at hsplit hcloses hmore ⊢
  have hremaining : ∀ around ∈ closed.2, Tag.isRawText around.name = false := by
    intro around haround
    exact hopened around (hsplit ▸ List.mem_append_right closing haround)
  by_cases hclosing : closing = []
  · -- Nothing open has the name, so all stays open.
    rw [hclosing] at hsplit hcloses
    rw [List.nil_append] at hsplit
    have hskipped : Skipped (names s.opened) (EndTag.chars name trailing ++ []) := by
      refine .endTag hwritten ?_ .nil
      simpa [names] using hnone hclosing
    rw [List.append_nil] at hskipped
    have hnext := hmore last ⟨_, hpassed.takes htakes,
      .markup hremaining (hsplit ▸ hgap.append hskipped)⟩
    rw [hcloses.eq_nil, hsplit]
    exact hnext
  · refine hcloses.accounted_pending hclosing hsplit hpassed (fun _ _ => hgap.of_none _)
      htakes fun name' => ?_
    exact hmore _ (pending_of_markup (hpassed.place.takes htakes) rfl hremaining)

theorem sameName_toLower {name : String} (h : Tag.isRawText name) :
    Tag.sameName name name.toLower := by
  unfold Tag.sameName
  rcases rawText_names h with hname | hname | hname
  all_goals
    rw [hname]
    decide +kernel

/-- Raw content is accounted for with its end tag. -/
theorem Pending.accounted_rawEnded {name : String} {ended : RawText.Ended} {stop after : Cursor}
    (h : Pending source last s) (hrest : s.cursor.rest ≠ [])
    (hraw : rawName? s.opened = some name) (hbody : s.cursor.Takes ended.body stop)
    (htag : stop.Takes ended.endTag after)
    (hmore : ∀ last',
      Pending source last' ⟨after, (closeNamed name ⟨stop.offset, after.offset⟩ s.opened).2⟩ →
      Accounted source last' (names (closeNamed name ⟨stop.offset, after.offset⟩ s.opened).2)
        more) :
    Accounted source last (names s.opened)
      (rawEvents name ended.body ⟨s.cursor.offset, stop.offset⟩ ++
        ((closeNamed name ⟨stop.offset, after.offset⟩ s.opened).1 ++ more)) := by
  rcases h.raw hrest hraw with
    ⟨tag, outer, newline, hlast, hopened, rfl, hrawText, houter, hnewline, hpassed⟩
  rcases closes_closeNamed tag.name.toLower ⟨stop.offset, after.offset⟩ s.opened with
    ⟨closing, hsplit, hcloses, hnone⟩
  generalize closeNamed tag.name.toLower ⟨stop.offset, after.offset⟩ s.opened = closed
    at hsplit hcloses hmore ⊢
  have hclosing : closing ≠ [] := by
    intro hnil
    exact hnone hnil ⟨tag.name, tag.span⟩ (by simp [hopened]) (sameName_toLower hrawText)
  have hremaining : ∀ around ∈ closed.2, Tag.isRawText around.name = false := by
    intro around haround
    -- The raw text element is closed, and around it there is no other.
    rcases List.exists_cons_of_ne_nil hclosing with ⟨top, inner, rfl⟩
    have houter' : outer = inner ++ closed.2 := by
      rw [hopened, List.cons_append] at hsplit
      exact (List.cons.inj hsplit).2
    exact houter around (houter' ▸ List.mem_append_right inner haround)
  have hstop := hpassed.place.takes hbody
  rw [hopened, names_cons]
  refine rawEvents_accounted hrawText hlast hnewline hpassed hbody fun last' gap hgap hall => ?_
  have hclosed := hcloses.accounted_pending (s := ⟨stop, s.opened⟩) hclosing hsplit hgap
    (by simpa [hopened] using hall) htag fun name =>
      hmore _ (pending_of_markup (hstop.takes htag) rfl hremaining)
  simpa [hopened] using hclosed

/-- A step accounts for what it reads: if what follows it goes on where a scanner can stand, the
events of the step go on where it has started. -/
theorem Step.accounted (h : Step s events next) (hrest : s.cursor.rest ≠ [])
    (hs : Pending source last s)
    (hmore : ∀ last', Pending source last' next →
      Accounted source last' (names next.opened) more) :
    Accounted source last (names s.opened) (events ++ more) := by
  cases h with
  | @declaration taken _ hraw hdecl =>
      rcases hs.markup hrest hraw with ⟨hopened, gap, hpassed, hgap⟩
      rcases Declaration.read?_eq_some_iff.1 hdecl with ⟨hcomplete, hcs⟩
      have hskipped : Skipped (names s.opened) (taken ++ []) := .declaration hcomplete .nil
      rw [List.append_nil] at hskipped
      exact hmore last
        ⟨_, hpassed.takes (Cursor.takes_advance hcs), .markup hopened (hgap.append hskipped)⟩
  | endTag hraw _ hend => exact hs.accounted_endTag hrest hraw hend hmore
  | startTag hraw _ _ hstart => exact hs.accounted_openTag hrest hraw hstart hmore
  | @text run rest hraw _ _ _ htext hrun =>
      rcases hs.markup hrest hraw with ⟨hopened, gap, hpassed, hgap⟩
      have htakes : s.cursor.Takes run (s.cursor.advance run rest) := by
        refine Cursor.takes_advance ?_
        simpa [htext] using textOnto_eq [] s.cursor.rest
      refine .text hpassed.covers (hgap.of_none _) (hpassed.place.covers htakes)
        (by rw [contentOf_eq hopened]) hrun ?_
      exact hmore _ (pending_of_markup (hpassed.place.takes htakes) rfl hopened)
  | rawRest hraw _ =>
      rcases hs.raw hrest hraw with
        ⟨tag, outer, newline, hlast, hopened, rfl, hrawText, _, hnewline, hpassed⟩
      have htakes : s.cursor.Takes s.cursor.rest (s.cursor.advance s.cursor.rest []) :=
        Cursor.takes_advance (by simp)
      rw [hopened, names_cons]
      refine rawEvents_accounted hrawText hlast hnewline hpassed htakes
        fun last' gap hgap hall => ?_
      have hnext := hmore last' ⟨gap, hgap, .ended rfl (by simp [hopened])
        (by simpa [hopened] using hall)⟩
      simpa [hopened] using hnext
  | @rawEnded name ended _ _ hraw hend hstop hafter =>
      have hsplit := (RawText.end?_eq_some hend).1
      subst hstop hafter
      rw [List.append_assoc]
      exact hs.accounted_rawEnded hrest hraw (Cursor.takes_advance (by simpa using hsplit))
        (Cursor.takes_advance rfl) hmore

/-! ## The whole source -/

theorem Reads.accounted (h : Reads s events) (hs : Pending source last s) :
    Accounted source last (names s.opened) events := by
  induction h generalizing last with
  | done hrest => exact hs.accounted_closeRest hrest
  | step hrest hstep _ ih => exact hstep.accounted hrest hs fun last' hnext => ih hnext
  | @malformed s hrest hnone =>
      have hraw : rawName? s.opened = none := by
        cases hraw : rawName? s.opened with
        | none => rfl
        | some name => simp [step?, hraw] at hnone
      rcases hs.markup hrest hraw with ⟨hopened, gap, hpassed, hgap⟩
      have htakes : s.cursor.Takes s.cursor.rest (s.cursor.advance s.cursor.rest []) :=
        Cursor.takes_advance (by simp)
      refine .text hpassed.covers (hgap.of_none _) (hpassed.place.covers htakes)
        (by rw [contentOf_eq hopened]) hrest (.warned ?_)
      have hlast : Pending source
          (some (.text (String.ofList s.cursor.rest)
            ⟨s.cursor.offset, (s.cursor.advance s.cursor.rest []).offset⟩))
          ⟨s.cursor.advance s.cursor.rest [], s.opened⟩ :=
        pending_of_markup (hpassed.place.takes htakes) rfl hopened
      exact hlast.accounted_closeRest rfl

end Scanner

/-- The events of a source account for all of it. -/
theorem scan_accounted (source : String) : Event.Accounted source none [] (scan source) :=
  (reads_scan source).accounted (Scanner.pending_ofText source)

end TemplateMarkup
