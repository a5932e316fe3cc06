import TemplateMarkup.Proofs.Scan.EndSlices

/-!
# The course of a reading

A reading takes one step after the other and ends at the end of the source or at markup that cannot
be read. This file defines:

* `Scanner.Leads s events t` — steps from `s` that report `events` lead to `t`,
* `Scanner.Portion t own` — `own` is what is reported at `t` in one go, by a step or by the end of
  the reading,

and cuts a reading at one of its events (`Scanner.Reads.locate`). What holds of all scanners that a
reading comes to is shown along `Leads`: they stand in the source (`Scanner.Leads.place`), and what
they have open are the start events that the events so far leave open
(`Scanner.Leads.enclosing`).
-/

namespace TemplateMarkup

theorem Cursor.At.offset_add {source : String} {c : Cursor} (h : c.At source) :
    c.offset + Text.byteLength c.rest = Text.byteLength source.toList := by
  rcases h with ⟨front, hsource, hoffset⟩
  rw [hsource, hoffset, Text.byteLength_append]

namespace Scanner

open Event

variable {source : String} {span : Span} {s t next : Scanner}
  {events more before after front : List Event} {closing outer : List OpenTag}

/-! ## Steps one after the other -/

/-- Steps lead from `s` to `t` and report `events`. No step is taken at the end of the source. -/
inductive Leads : Scanner → List Event → Scanner → Prop where
  | refl (s : Scanner) : Leads s [] s
  | step {s next t : Scanner} {events more : List Event} :
      s.cursor.rest ≠ [] → Step s events next → Leads next more t → Leads s (events ++ more) t

theorem Leads.reads (h : Leads s events t) (hmore : Reads t more) : Reads s (events ++ more) := by
  induction h with
  | refl s => exact hmore
  | step hrest hstep _ ih =>
      have hreads := Reads.step hrest hstep (ih hmore)
      simpa using hreads

/-- What every step keeps is kept on the way. -/
theorem Leads.invariant {P : Scanner → Prop}
    (hstep : ∀ {s events next}, P s → Step s events next → P next) (h : Leads s events t)
    (hs : P s) : P t := by
  induction h with
  | refl s => exact hs
  | step _ hnext _ ih => exact ih (hstep hs hnext)

theorem Leads.place (h : Leads s events t) (hs : s.cursor.At source) : t.cursor.At source :=
  h.invariant (fun hplace hstep => hstep.place hplace) hs

theorem Leads.rawInnermost (h : Leads s events t) (hs : RawInnermost s.opened) :
    RawInnermost t.opened :=
  h.invariant (fun hinner hstep => hstep.rawInnermost hinner) hs

/-! ## Cutting a reading at an event -/

/-- What is reported in one go: the events of a step, or those that end the reading. -/
inductive Portion (t : Scanner) : List Event → Prop where
  | step {next : Scanner} {own : List Event} :
      t.cursor.rest ≠ [] → Step t own next → Portion t own
  | done : t.cursor.rest = [] → Portion t (closeRest t.cursor.offset t.opened)
  | malformed :
      t.cursor.rest ≠ [] → step? t = none →
      Portion t (malformed t.cursor ++
        closeRest (t.cursor.advance t.cursor.rest []).offset t.opened)

/-- Every event is reported somewhere on the way, as part of one portion. -/
theorem Reads.locate {event : Event} (h : Reads s events)
    (hsplit : events = before ++ event :: after) :
    ∃ front t mid tail later, Leads s front t ∧ Portion t (mid ++ event :: tail) ∧
      before = front ++ mid ∧ after = tail ++ later := by
  induction h generalizing before with
  | @done s hrest =>
      refine ⟨[], s, before, after, [], .refl s, ?_, rfl, (List.append_nil after).symm⟩
      rw [← hsplit]
      exact .done hrest
  | @malformed s hrest hnone =>
      refine ⟨[], s, before, after, [], .refl s, ?_, rfl, (List.append_nil after).symm⟩
      rw [← hsplit]
      exact .malformed hrest hnone
  | @step s next events more hrest hstep hreads ih =>
      -- A later event is found by the hypothesis, with this step put in front of the way to it.
      have hlater : ∀ before', more = before' ++ event :: after → before = events ++ before' →
          ∃ front t mid tail later, Leads s front t ∧ Portion t (mid ++ event :: tail) ∧
            before = front ++ mid ∧ after = tail ++ later := by
        intro before' hmore hbefore
        rcases ih hmore with ⟨front, t, mid, tail, later, hleads, hportion, hmid, hafter⟩
        refine ⟨events ++ front, t, mid, tail, later, .step hrest hstep hleads, hportion, ?_,
          hafter⟩
        simp [hbefore, hmid]
      rcases List.append_eq_append_iff.1 hsplit with ⟨before', hbefore, hmore⟩ | ⟨own, hown, hrest'⟩
      · exact hlater before' hmore hbefore
      · cases own with
        | nil => exact hlater [] hrest'.symm (by simpa using hown.symm)
        | cons first own =>
            have hfirst : event = first ∧ after = own ++ more := by simpa using hrest'
            rcases hfirst with ⟨rfl, rfl⟩
            refine ⟨[], s, before, own, more, .refl s, ?_, rfl, rfl⟩
            rw [← hown]
            exact .step hrest hstep

/-! ## What is open -/

/-- The open element of a start event. -/
def openedAt (start : Numbered) : OpenTag :=
  ⟨start.2.name, start.2.span⟩

/-- The events so far leave open just what the scanner has open. -/
def Tracks (events : List Event) (opened : List OpenTag) (opens : List Numbered) : Prop :=
  Enclosing events opens ∧ opens.map openedAt = opened

theorem Tracks.append {opens : List Numbered} {opened : List OpenTag}
    (h : Tracks events opened opens) (hmore : Balanced more) :
    Tracks (events ++ more) opened opens :=
  ⟨h.1.append hmore, h.2⟩

/-- The innermost element is the last start event that is still open. -/
theorem Tracks.innermost {opens : List Numbered} {top : OpenTag}
    (h : Tracks events (top :: outer) opens) :
    ∃ n tag around, opens = (n, tag) :: around ∧ top = ⟨tag.name, tag.span⟩ ∧
      around.map openedAt = outer ∧ Enclosing events ((n, tag) :: around) := by
  rcases h with ⟨henclosing, hopened⟩
  rcases List.map_eq_cons_iff.1 hopened with ⟨⟨n, tag⟩, around, rfl, rfl, haround⟩
  exact ⟨n, tag, around, rfl, rfl, haround, henclosing⟩

/-- The innermost element is closed. -/
theorem Tracks.closed {opens : List Numbered} {top : OpenTag}
    (h : Tracks events (top :: outer) opens) (span : Span) :
    ∃ n tag around, opens = (n, tag) :: around ∧ top = ⟨tag.name, tag.span⟩ ∧
      Tracks (events ++ [.closed top.name span]) outer around := by
  rcases h.innermost with ⟨n, tag, around, rfl, rfl, haround, henclosing⟩
  refine ⟨n, tag, around, rfl, rfl, ?_, haround⟩
  cases henclosing with
  | inside houter hinner =>
      -- The start event and its partner become part of the balanced stretch around them.
      have helement : Balanced (.opened tag false :: (_ ++ [.closed tag.name span])) :=
        .element hinner .nil
      simpa using houter.append helement

theorem Tracks.closes {opens : List Numbered} (h : Tracks front (closing ++ outer) opens)
    (hcloses : Closes span closing events) :
    ∃ around inner, opens = inner ++ around ∧ inner.map openedAt = closing ∧
      Tracks (front ++ events) outer around := by
  induction hcloses generalizing front opens with
  | nil => exact ⟨opens, [], rfl, rfl, by simpa using h⟩
  | @own tag closing events _ ih =>
      rcases h.closed span with ⟨n, start, around, rfl, rfl, hclosed⟩
      rcases ih hclosed with ⟨outmost, inner, rfl, hinner, htracks⟩
      exact ⟨outmost, (n, start) :: inner, rfl, by simp [hinner, openedAt], by simpa using htracks⟩
  | @warned tag warning closing events _ ih =>
      have hwarning : Balanced [.warned warning] := .warned .nil
      have hwarned := h.append hwarning
      rcases hwarned.closed span with ⟨n, start, around, rfl, rfl, hclosed⟩
      rcases ih hclosed with ⟨outmost, inner, rfl, hinner, htracks⟩
      exact ⟨outmost, (n, start) :: inner, rfl, by simp [hinner, openedAt], by simpa using htracks⟩

theorem balanced_rawEvents (name : String) (body : List Char) (span : Span) :
    Balanced (rawEvents name body span) := by
  unfold rawEvents
  split
  · exact .nil
  · exact .text .nil

theorem Step.tracks {opens : List Numbered} (h : Step s events next)
    (hs : Tracks front s.opened opens) :
    ∃ opens', Tracks (front ++ events) next.opened opens' := by
  cases h with
  | declaration _ _ => exact ⟨opens, by simpa using hs⟩
  | @endTag tag after _ _ _ =>
      rcases closes_closeNamed tag.name tag.span s.opened with ⟨closing, hsplit, hcloses, _⟩
      rw [hsplit] at hs
      rcases hs.closes hcloses with ⟨around, _, _, _, htracks⟩
      exact ⟨around, htracks⟩
  | @startTag tag after _ _ _ _ =>
      rcases closes_openTag tag after s.opened with ⟨closing, ended, hsplit, hcloses, heq⟩
      rw [hsplit] at hs
      rcases hs.closes hcloses with ⟨around, _, _, _, htracks⟩
      rw [heq]
      unfold openedBy
      cases hunary : isUnary tag with
      | true =>
          have htag : Balanced [.opened tag true] := .unary .nil
          exact ⟨around, by simpa using htracks.append htag⟩
      | false =>
          -- The new element is inside of what is left open.
          refine ⟨(startCount (front ++ ended), tag) :: around, ?_, ?_⟩
          · have hinside : Enclosing (front ++ ended ++ .opened tag false :: []) _ :=
              .inside htracks.1 .nil
            simpa using hinside
          · simp [openedAt, htracks.2]
  | text _ _ _ _ _ _ => exact ⟨opens, hs.append (.text .nil)⟩
  | rawRest _ _ => exact ⟨opens, hs.append (balanced_rawEvents _ _ _)⟩
  | @rawEnded name ended stop after _ _ _ _ =>
      have hraw := hs.append
        (balanced_rawEvents name ended.body ⟨s.cursor.offset, stop.offset⟩)
      rcases closes_closeNamed name ⟨stop.offset, after.offset⟩ s.opened with
        ⟨closing, hsplit, hcloses, _⟩
      rw [hsplit] at hraw
      rcases hraw.closes hcloses with ⟨around, _, _, _, htracks⟩
      exact ⟨around, by simpa using htracks⟩

/-- What a scanner has open are the start events still open behind the events so far. -/
theorem Leads.enclosing {opens : List Numbered} (h : Leads s events t)
    (hs : Tracks front s.opened opens) : ∃ opens', Tracks (front ++ events) t.opened opens' := by
  induction h generalizing front opens with
  | refl s => exact ⟨opens, by simpa using hs⟩
  | step _ hstep _ ih =>
      rcases hstep.tracks hs with ⟨opens', hnext⟩
      rcases ih hnext with ⟨opens'', hlast⟩
      exact ⟨opens'', by simpa using hlast⟩

/-- At the start of a source nothing is open. -/
theorem tracks_ofText (source : String) : Tracks [] (ofText source).opened [] :=
  ⟨.outermost .nil, rfl⟩

end Scanner
end TemplateMarkup
