import Mathlib.Data.List.Infix
import TemplateMarkup.Proofs.Event.Layout
import TemplateMarkup.Proofs.Scan.Account

/-!
# The places of events

Every offset a scanner reports is that of a cursor in the source. This file defines:

* `Text.Boundary source offset` — characters end or start at `offset`,
* `Span.Placed source span` — both ends of `span` are such offsets, in order,
* `Event.Within P event` — all spans of an event have the property `P`,

and shows that the events of a source have all their spans in it (`Scanner.Reads.within`) and follow
each other there (`Event.Accounted.timeline`).
-/

namespace TemplateMarkup

/-! ## Boundaries -/

/-- An offset at which a part of the source ends. -/
def Text.Boundary (source : String) (offset : Nat) : Prop :=
  ∃ front back, source.toList = front ++ back ∧ offset = Text.byteLength front

theorem Cursor.At.boundary {source : String} {c : Cursor} (h : c.At source) :
    Text.Boundary source c.offset := by
  rcases h with ⟨front, hsource, hoffset⟩
  exact ⟨front, c.rest, hsource, hoffset⟩

namespace Span

variable {source : String} {span span' : Span} {inside : List Char}

/-- A span whose ends are boundaries, in order. -/
structure Placed (source : String) (span : Span) : Prop where
  start : Text.Boundary source span.start
  stop : Text.Boundary source span.stop
  start_le : span.start ≤ span.stop

theorem Covers.placed (h : Covers source span inside) : Placed source span := by
  have hle := h.start_le
  rcases h with ⟨front, back, hsource, rfl⟩
  refine ⟨⟨front, inside ++ back, by simpa using hsource, rfl⟩, ?_, hle⟩
  exact ⟨front ++ inside, back, hsource, (Text.byteLength_append front inside).symm⟩

/-- There is something between two boundaries. -/
theorem Placed.covers (h : Placed source span) : ∃ inside, Covers source span inside := by
  rcases h with ⟨⟨front, back, hsource, hstart⟩, ⟨front', back', hsource', hstop⟩, hle⟩
  rw [hstart, hstop] at hle
  have hfront : front <+: source.toList := ⟨back, hsource.symm⟩
  have hfront' : front' <+: source.toList := ⟨back', hsource'.symm⟩
  rcases List.prefix_or_prefix_of_prefix hfront hfront' with ⟨inside, rfl⟩ | ⟨more, rfl⟩
  · refine ⟨inside, front, back', hsource', ?_⟩
    rw [← Text.byteLength_append, ← hstart, ← hstop]
  · -- The start is not behind the stop, so both are the same offset.
    rw [Text.byteLength_append] at hle hstart
    have hsame : span.start = Text.byteLength front' := by omega
    refine ⟨[], front', back', by simpa using hsource', ?_⟩
    calc
      span = ⟨span.start, span.stop⟩ := rfl
      _ = _ := by rw [hsame, hstop]; rfl

theorem Placed.cover (h : Placed source span) (h' : Placed source span') :
    Placed source (span.cover span') := by
  refine ⟨?_, ?_, ?_⟩
  · rcases Nat.le_total span.start span'.start with hle | hle
    · simpa [Span.cover, Nat.min_eq_left hle] using h.start
    · simpa [Span.cover, Nat.min_eq_right hle] using h'.start
  · rcases Nat.le_total span.stop span'.stop with hle | hle
    · simpa [Span.cover, Nat.max_eq_right hle] using h'.stop
    · simpa [Span.cover, Nat.max_eq_left hle] using h.stop
  · exact Nat.le_trans (Nat.min_le_left _ _) (Nat.le_trans h.start_le (Nat.le_max_left _ _))

theorem placed_all (source : String) : Placed source ⟨0, Text.byteLength source.toList⟩ where
  start := ⟨[], source.toList, rfl, rfl⟩
  stop := ⟨source.toList, [], by simp, rfl⟩
  start_le := Nat.zero_le _

end Span

theorem Cursor.At.placed_empty {source : String} {c : Cursor} (h : c.At source) :
    Span.Placed source (.empty c.offset) :=
  ⟨h.boundary, h.boundary, Nat.le_refl _⟩

/-! ## The spans of events -/

namespace Event

/-- All spans of an event have the property. -/
def Within (P : Span → Prop) : Event → Prop
  | .opened tag _ => P tag.span ∧ ∀ a ∈ tag.attributes, P a.span
  | .closed _ span => P span
  | .text _ span => P span
  | .warned warning => P warning.span

/-- The events of an account follow each other. -/
theorem Accounted.timeline {source : String} {last : Option Event} {stack : List String}
    {events : List Event} (h : Accounted source last stack events) {before : Span}
    (hstop : before.stop = stopOf last) (hbefore : before.start ≤ before.stop)
    (hclosed : ∀ name span, last = some (.closed name span) → before = span) :
    Timeline before events := by
  induction h generalizing before with
  | done _ _ => trivial
  | warned _ ih => exact ih hstop hbefore hclosed
  | opened hgap _ hspan hne _ ih =>
      have hlt := hspan.start_lt hne
      refine ⟨hstop ▸ hgap.start_le, hlt, ih rfl (Nat.le_of_lt hlt) ?_⟩
      intro name span heq
      cases heq
  | closed hgap _ hspan _ ih =>
      have hle := hgap.start_le
      have hspan' := hspan.start_le
      rw [← hstop] at hle
      refine ⟨Nat.le_trans hbefore hle, Nat.le_trans hle hspan', hspan', ih rfl hspan' ?_⟩
      intro name span heq
      cases heq
      rfl
  | @shared inner name outer span events _ ih =>
      -- The same span once more.
      have hsame := hclosed inner span rfl
      subst hsame
      refine ⟨Nat.le_refl _, Nat.le_refl _, hbefore, ih rfl hbefore ?_⟩
      intro name span heq
      cases heq
      rfl
  | text hgap _ hspan _ hne _ ih =>
      have hlt := hspan.start_lt hne
      refine ⟨hstop ▸ hgap.start_le, hlt, ih rfl (Nat.le_of_lt hlt) ?_⟩
      intro name span heq
      cases heq

/-- The content of a text is what stands in its place, given the names that are open there. -/
theorem Accounted.covers_text {source content : String} {span : Span} {last : Option Event}
    {stack : List String} {before after : List Event}
    (h : Accounted source last stack (before ++ .text content span :: after)) :
    ∃ names body, replay? stack before = some names ∧ Span.Covers source span body ∧
      content = String.ofList (contentOf names body) := by
  induction before generalizing last stack with
  | nil =>
      cases h with
      | text _ _ hbody hcontent _ _ => exact ⟨stack, _, rfl, hbody, hcontent⟩
  | cons event before ih =>
      rw [List.cons_append] at h
      cases h with
      | warned hrest => exact ih hrest
      | opened _ _ _ _ hrest => exact ih hrest
      | closed _ _ _ hrest => simpa using ih hrest
      | shared hrest => simpa using ih hrest
      | text _ _ _ _ _ hrest => exact ih hrest

end Event

/-! ## Reading -/

namespace Scanner

open Event TemplateMarkup.Span

variable {P : Span → Prop} {source : String} {s next : Scanner} {events : List Event}
  {opened : List OpenTag} {span : Span}

theorem within_closeMissing (hspan : P span) (hopened : ∀ tag ∈ opened, P tag.span) :
    ∀ event ∈ opened.flatMap (closeMissing span), event.Within P := by
  intro event hevent
  rcases List.mem_flatMap.1 hevent with ⟨tag, htag, hmem⟩
  simp only [closeMissing, List.mem_cons, List.not_mem_nil, or_false] at hmem
  rcases hmem with rfl | rfl
  · exact hopened tag htag
  · exact hspan

theorem within_closeNamed (name : String) (hspan : P span) (hopened : ∀ tag ∈ opened, P tag.span) :
    (∀ event ∈ (closeNamed name span opened).1, event.Within P) ∧
      ∀ tag ∈ (closeNamed name span opened).2, P tag.span := by
  constructor
  · unfold closeNamed
    split
    · simp
    · intro event hevent
      simp only [List.mem_append, List.mem_singleton] at hevent
      rcases hevent with hinner | rfl
      · refine within_closeMissing hspan (fun tag htag => ?_) event hinner
        exact hopened tag ((List.takeWhile_prefix _).subset htag)
      · exact hspan
  · rcases closes_closeNamed name span opened with ⟨closing, hsplit, _, _⟩
    intro tag htag
    exact hopened tag (hsplit ▸ List.mem_append_right closing htag)

theorem within_closeBefore (tag : StartTag) (ends : OpenTag → Bool) (htag : P tag.span)
    (hstart : P (.empty tag.span.start)) (opened : List OpenTag) :
    ∀ event ∈ (closeBefore tag ends opened).1, event.Within P := by
  unfold closeBefore
  split
  · simp
  · split
    · intro event hevent
      simp only [List.mem_cons, List.not_mem_nil, or_false] at hevent
      rcases hevent with rfl | rfl
      · exact htag
      · exact hstart
    · simp

theorem within_openTag {tag : StartTag} {after : Cursor} (htag : P tag.span)
    (hattributes : ∀ a ∈ tag.attributes, P a.span) (hstart : P (.empty tag.span.start))
    (hopened : ∀ around ∈ opened, P around.span) :
    (∀ event ∈ (openTag tag after opened).1, event.Within P) ∧
      ∀ around ∈ (openTag tag after opened).2.opened, P around.span := by
  constructor
  · intro event hevent
    simp only [openTag, List.mem_append, List.mem_singleton] at hevent
    rcases hevent with (hended | hended) | rfl
    · exact within_closeBefore tag _ htag hstart _ event hended
    · exact within_closeBefore tag _ htag hstart _ event hended
    · exact ⟨htag, hattributes⟩
  · rcases closes_openTag tag after opened with ⟨closing, ended, hsplit, _, heq⟩
    have hremaining : ∀ around ∈ remaining tag opened, P around.span := by
      intro around haround
      exact hopened around (hsplit ▸ List.mem_append_right closing haround)
    rw [heq]
    unfold openedBy
    split
    · exact hremaining
    · exact List.forall_mem_cons.2 ⟨htag, hremaining⟩

theorem within_rawEvents (name : String) (body : List Char) (hspan : P span) :
    ∀ event ∈ rawEvents name body span, event.Within P := by
  unfold rawEvents
  split
  · simp
  · simpa [Within] using hspan

/-- A scanner in the source, and so are the start tags of what is open. -/
structure InSource (source : String) (s : Scanner) : Prop where
  place : s.cursor.At source
  opened : ∀ tag ∈ s.opened, tag.span.Placed source

/-- All spans that a step reports are in the source. -/
theorem Step.within (h : Step s events next) (hs : s.InSource source) :
    (∀ event ∈ events, event.Within (Placed source)) ∧ next.InSource source := by
  have hnext := h.place hs.place
  rcases hs with ⟨hplace, hopened⟩
  cases h with
  | declaration _ _ => exact ⟨by simp, hnext, hopened⟩
  | endTag _ _ hend =>
      rcases EndTag.read?_eq_some_iff.1 hend with ⟨name, trailing, _, htakes, rfl⟩
      rcases within_closeNamed (String.ofList name) (hplace.covers htakes).placed hopened with
        ⟨hevents, hremaining⟩
      exact ⟨hevents, hnext, hremaining⟩
  | @startTag tag after _ _ _ hstart =>
      rcases StartTag.read?_takes hstart with ⟨taken, _, htakes, hspan⟩
      have htag : tag.span.Placed source := hspan ▸ (hplace.covers htakes).placed
      have hattributes : ∀ a ∈ tag.attributes, a.span.Placed source := by
        intro a ha
        rcases StartTag.read?_covers hplace hstart a ha with ⟨inside, hinside⟩
        exact hinside.placed
      have hempty : (Span.empty tag.span.start).Placed source := by
        rw [hspan]
        exact hplace.placed_empty
      rcases within_openTag htag hattributes hempty hopened with ⟨hevents, hremaining⟩
      exact ⟨hevents, hnext, hremaining⟩
  | @text run rest _ _ _ _ htext _ =>
      have htakes : s.cursor.Takes run (s.cursor.advance run rest) :=
        Cursor.takes_advance (by simpa [htext] using textOnto_eq [] s.cursor.rest)
      refine ⟨?_, hnext, hopened⟩
      simpa [Within] using (hplace.covers htakes).placed
  | rawRest _ _ =>
      have htakes : s.cursor.Takes s.cursor.rest (s.cursor.advance s.cursor.rest []) :=
        Cursor.takes_advance (by simp)
      exact ⟨within_rawEvents _ _ (hplace.covers htakes).placed, hnext, hopened⟩
  | @rawEnded name ended stop after _ hend hstop hafter =>
      have hsplit := (RawText.end?_eq_some hend).1
      rw [List.append_assoc] at hsplit
      subst hstop hafter
      have hbody := Cursor.takes_advance hsplit
      have hstop := hplace.takes hbody
      have htag : (s.cursor.advance ended.body (ended.endTag ++ ended.rest)).Takes ended.endTag
          ((s.cursor.advance ended.body (ended.endTag ++ ended.rest)).advance ended.endTag
            ended.rest) :=
        Cursor.takes_advance rfl
      rcases within_closeNamed name (hstop.covers htag).placed hopened with
        ⟨hevents, hremaining⟩
      refine ⟨?_, hnext, hremaining⟩
      intro event hevent
      rcases List.mem_append.1 hevent with hraw | hclosed
      · exact within_rawEvents _ _ (hplace.covers hbody).placed event hraw
      · exact hevents event hclosed

theorem within_closeRest {c : Cursor} (hplace : c.At source)
    (hopened : ∀ tag ∈ opened, tag.span.Placed source) :
    ∀ event ∈ closeRest c.offset opened, event.Within (Placed source) :=
  within_closeMissing hplace.placed_empty hopened

/-- All spans of a reading are in the source. -/
theorem Reads.within (h : Reads s events) (hs : s.InSource source) :
    ∀ event ∈ events, event.Within (Placed source) := by
  induction h with
  | done _ => exact within_closeRest hs.place hs.opened
  | step _ hstep _ ih =>
      rcases hstep.within hs with ⟨hevents, hnext⟩
      intro event hevent
      rcases List.mem_append.1 hevent with hmem | hmem
      · exact hevents event hmem
      · exact ih hnext event hmem
  | @malformed s _ _ =>
      have htakes : s.cursor.Takes s.cursor.rest (s.cursor.advance s.cursor.rest []) :=
        Cursor.takes_advance (by simp)
      have hspan := (hs.place.covers htakes).placed
      intro event hevent
      rcases List.mem_append.1 hevent with hmem | hmem
      · simp only [Scanner.malformed, List.mem_cons, List.not_mem_nil, or_false] at hmem
        rcases hmem with rfl | rfl
        · exact hspan
        · exact hspan
      · exact within_closeRest (hs.place.takes htakes) hs.opened event hmem

end Scanner

theorem within_scan (source : String) :
    ∀ event ∈ scan source, event.Within (Span.Placed source) :=
  (reads_scan source).within ⟨Cursor.at_ofText source, by simp [Scanner.ofText]⟩

/-- The events of a source follow each other. -/
theorem timeline_scan (source : String) : Event.Timeline (.empty 0) (scan source) := by
  have haccounted := (reads_scan source).accounted (Scanner.pending_ofText source)
  exact haccounted.timeline rfl (Nat.le_refl 0) (by simp)

end TemplateMarkup
