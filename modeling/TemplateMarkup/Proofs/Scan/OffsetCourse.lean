import TemplateMarkup.Proofs.Scan.Places
import TemplateMarkup.Proofs.Scan.ScanOffsets

/-!
# The course of a reading at byte offsets

A reading takes steps until it stands at the end of the source, or until a step leaves it where it
is. Whether it ever comes to that depends on the source: behind a tag it goes on where the span of
the tag ends, and spans end at `Span.maxOffset` at the latest. This file defines:

* `OffsetScanner.Leads source s events t` — steps from `s` that report `events` lead to `t`,
* `OffsetScanner.Reads source s events` — the reading from `s` ends, and reports `events` in all,
* `OffsetScanner.Reports source events` — the reading of the source reports `events`, be it on its
  way or in all,
* `OffsetScanner.Breaks source s` — at `s` a cut or a lookup fails,
* `OffsetScanner.Stuck source s` — markup is to be read at `s`, and none can be.

A source of less than 4 GiB is read as by a cursor (`OffsetScanner.leads_iff`,
`OffsetScanner.reads_iff`), so that the reading ends and only ever moves on
(`OffsetScanner.reading_advances`). A tag further on leads back, into what has been read, so that
the reading need not end (`OffsetScanner.not_reads_of_long`), or into the middle of a character
(`OffsetScanner.breaks_inside`).
-/

namespace TemplateMarkup

open Text (byteLength)

namespace OffsetScanner

variable {source : List Char} {s t next : OffsetScanner} {events more : List Event}

/-! ## Steps one after the other -/

/-- The quoted part of a malformed rest. -/
def fragment? (rest : List Char) : Option String :=
  if Scanner.maxFragment < rest.length then
    (Text.upTo? (byteLength (rest.take Scanner.maxFragment)) rest).map fun quoted =>
      String.ofList quoted ++ "..."
  else some (String.ofList rest)

/-- Gives up: the rest becomes text. -/
def malformed? (source : List Char) (index : Nat) : Option (List Event) :=
  match Text.from? index source with
  | none => none
  | some rest =>
      let span : Span := .between index (byteLength source)
      (fragment? rest).map fun fragment =>
        [.text (String.ofList rest) span, .warned ⟨.malformedTag fragment, span⟩]

/-- Closes what is open at the end of the source. -/
def closeRest (source : List Char) (opened : List OpenTag) : List Event :=
  Scanner.closeRest (Span.clamp (byteLength source)) opened

/-- Steps lead from `s` to `t` and report `events`. Each of them leads somewhere else, be it forward
or backward. -/
inductive Leads (source : List Char) : OffsetScanner → List Event → OffsetScanner → Prop where
  | refl (s : OffsetScanner) : Leads source s [] s
  | step {s next t : OffsetScanner} {events more : List Event} :
      s.index < byteLength source → s.step? source = some (events, next) → next.index ≠ s.index →
      Leads source next more t → Leads source s (events ++ more) t

/-- The reading from `s` comes to an end and reports `events`. A reading that goes on for ever has
no such events. -/
inductive Reads (source : List Char) : OffsetScanner → List Event → Prop where
  | done {s : OffsetScanner} :
      byteLength source ≤ s.index → Reads source s (closeRest source s.opened)
  | step {s next : OffsetScanner} {events more : List Event} :
      s.index < byteLength source → s.step? source = some (events, next) → next.index ≠ s.index →
      Reads source next more → Reads source s (events ++ more)
  /-- A step that leaves the scanner where it is makes what is left malformed. -/
  | malformed {s next : OffsetScanner} {events rest : List Event} :
      s.index < byteLength source → s.step? source = some (events, next) → next.index = s.index →
      malformed? source next.index = some rest →
      Reads source s (events ++ rest ++ closeRest source next.opened)

def Reports (source : List Char) (events : List Event) : Prop :=
  (∃ s, Leads source ⟨0, []⟩ events s) ∨ Reads source ⟨0, []⟩ events

/-- A cut or a lookup fails. -/
def Breaks (source : List Char) (s : OffsetScanner) : Prop :=
  s.index < byteLength source ∧
    (s.step? source = none ∨
      ∃ events next, s.step? source = some (events, next) ∧ next.index = s.index ∧
        malformed? source next.index = none)

/-- Markup is to be read, and none can be. -/
def Stuck (source : List Char) (s : OffsetScanner) : Prop :=
  Scanner.rawName? s.opened = none ∧
    ∃ rest, Text.from? s.index source = some rest ∧ Cursor.Unreadable ⟨s.index, rest⟩

theorem Leads.reads (h : Leads source s events t) (hmore : Reads source t more) :
    Reads source s (events ++ more) := by
  induction h with
  | refl s => exact hmore
  | step hindex hstep hne _ ih =>
      rw [List.append_assoc]
      exact .step hindex hstep hne (ih hmore)

theorem Leads.trans {u : OffsetScanner} (h : Leads source s events t)
    (hmore : Leads source t more u) : Leads source s (events ++ more) u := by
  induction h with
  | refl s => exact hmore
  | step hindex hstep hne _ ih =>
      rw [List.append_assoc]
      exact .step hindex hstep hne (ih hmore)

/-- There is one way for a reading to end. -/
theorem Reads.unique (h : Reads source s events) (h' : Reads source s more) : events = more := by
  induction h generalizing more with
  | done hindex =>
      cases h' with
      | done _ => rfl
      | step hlt _ _ _ => exact absurd hlt (Nat.not_lt.2 hindex)
      | malformed hlt _ _ _ => exact absurd hlt (Nat.not_lt.2 hindex)
  | step hindex hstep hne _ ih =>
      cases h' with
      | done hle => exact absurd hindex (Nat.not_lt.2 hle)
      | step _ hstep' _ hreads =>
          cases hstep.symm.trans hstep'
          rw [ih hreads]
      | malformed _ hstep' heq _ =>
          cases hstep.symm.trans hstep'
          exact absurd heq hne
  | malformed hindex hstep heq hrest =>
      cases h' with
      | done hle => exact absurd hindex (Nat.not_lt.2 hle)
      | step _ hstep' hne _ =>
          cases hstep.symm.trans hstep'
          exact absurd heq hne
      | malformed _ hstep' _ hrest' =>
          cases hstep.symm.trans hstep'
          cases hrest.symm.trans hrest'
          rfl

/-- Of two places that a reading comes to, it comes to one on its way to the other. -/
theorem Leads.comparable {u : OffsetScanner} (h : Leads source s events t)
    (h' : Leads source s more u) :
    (∃ rest, more = events ++ rest ∧ Leads source t rest u) ∨
      ∃ rest, events = more ++ rest ∧ Leads source u rest t := by
  induction h generalizing more with
  | refl s => exact .inl ⟨more, rfl, h'⟩
  | step hindex hstep hne hleads ih =>
      cases h' with
      | refl _ => exact .inr ⟨_, rfl, .step hindex hstep hne hleads⟩
      | step _ hstep' _ hleads' =>
          cases hstep.symm.trans hstep'
          rcases ih hleads' with ⟨rest, rfl, hrest⟩ | ⟨rest, rfl, hrest⟩
          · exact .inl ⟨rest, (List.append_assoc ..).symm, hrest⟩
          · exact .inr ⟨rest, (List.append_assoc ..).symm, hrest⟩

/-- A reading that ends has all its places on its way. -/
theorem Reads.behind (h : Reads source s more) (hleads : Leads source s events t) :
    ∃ rest, more = events ++ rest ∧ Reads source t rest := by
  induction hleads generalizing more with
  | refl s => exact ⟨more, rfl, h⟩
  | step hindex hstep hne _ ih =>
      cases h with
      | done hle => exact absurd hindex (Nat.not_lt.2 hle)
      | step _ hstep' _ hreads =>
          cases hstep.symm.trans hstep'
          rcases ih hreads with ⟨rest, rfl, hrest⟩
          exact ⟨rest, (List.append_assoc ..).symm, hrest⟩
      | malformed _ hstep' heq _ =>
          cases hstep.symm.trans hstep'
          exact absurd heq hne

/-- A step that can be taken from a place where a cut fails leads nowhere else, and then what is
left cannot be quoted. -/
theorem Breaks.stays (h : s.Breaks source) (hstep : s.step? source = some (events, next)) :
    next.index = s.index ∧ malformed? source next.index = none := by
  rcases h.2 with hnone | ⟨_, _, hstep', heq, hnone⟩
  · cases hnone.symm.trans hstep
  · cases hstep.symm.trans hstep'
    exact ⟨heq, hnone⟩

/-- There is no way on from a place where a cut fails. -/
theorem Breaks.leads (h : s.Breaks source) (hleads : Leads source s events t) : events = [] := by
  cases hleads with
  | refl _ => rfl
  | step _ hstep hne _ => exact absurd (h.stays hstep).1 hne

theorem Breaks.not_reads (h : s.Breaks source) : ¬Reads source s events := by
  intro hreads
  cases hreads with
  | done hle => exact absurd h.1 (Nat.not_lt.2 hle)
  | step _ hstep hne _ => exact absurd (h.stays hstep).1 hne
  | malformed _ hstep _ hrest => cases (h.stays hstep).2.symm.trans hrest

/-- A reading that comes to such a place reports nothing else. -/
theorem Breaks.reports (h : t.Breaks source) (hleads : Leads source ⟨0, []⟩ events t)
    (hreports : Reports source more) : ∃ rest, events = more ++ rest := by
  rcases hreports with ⟨u, hu⟩ | hreads
  · rcases hleads.comparable hu with ⟨rest, rfl, hrest⟩ | ⟨rest, rfl, _⟩
    · rw [h.leads hrest]
      exact ⟨[], by simp⟩
    · exact ⟨rest, rfl⟩
  · rcases hreads.behind hleads with ⟨rest, _, hrest⟩
    exact absurd hrest h.not_reads

end OffsetScanner

/-! ## Short sources -/

namespace Scanner

variable {source : String} {s t next : Scanner} {events more : List Event} {c : Cursor}
  {o : OffsetScanner}

theorem fragment?_eq (rest : List Char) :
    OffsetScanner.fragment? rest = some (fragment rest) := by
  have hcut : Text.upTo? (byteLength (rest.take maxFragment)) rest = some (rest.take maxFragment) :=
    Text.upTo?_eq_some_iff.2 ⟨_, (List.take_append_drop maxFragment rest).symm, rfl⟩
  unfold fragment
  split
  · next hdrop =>
      have hle : ¬maxFragment < rest.length := Nat.not_lt.2 (List.drop_eq_nil_iff.1 hdrop)
      rw [OffsetScanner.fragment?, if_neg hle]
  · next hdrop =>
      have hlt : maxFragment < rest.length :=
        Nat.lt_of_not_le fun hle => hdrop (List.drop_eq_nil_iff.2 hle)
      rw [OffsetScanner.fragment?, if_pos hlt, hcut]
      rfl

theorem offset_lt (hs : c.At source) (hrest : c.rest ≠ []) :
    c.offset < byteLength source.toList := by
  rw [← hs.offset_add]
  exact Nat.lt_add_of_pos_right (Text.byteLength_pos hrest)

section Short

variable (hsize : byteLength source.toList ≤ Span.maxOffset)

include hsize

theorem offsets_malformed? (hs : c.At source) :
    OffsetScanner.malformed? source.toList c.offset = some (malformed c) := by
  have htakes : c.Takes c.rest (c.advance c.rest []) :=
    Cursor.takes_advance (List.append_nil _).symm
  have hspan := between_eq hs htakes hsize
  rw [htakes.offset_eq, hs.offset_add] at hspan
  rw [OffsetScanner.malformed?, hs.from?_eq]
  dsimp only
  rw [fragment?_eq, hspan, ← hs.offset_add]
  rfl

theorem offsets_closeRest (opened : List OpenTag) :
    OffsetScanner.closeRest source.toList opened =
      closeRest (byteLength source.toList) opened := by
  rw [OffsetScanner.closeRest, Span.clamp_of_le hsize]

theorem Step.offsets (h : Step s events next) (hs : s.cursor.At source) :
    s.offsets.step? source.toList = some (events, next.offsets) := by
  rw [offsets_step? hs hsize, step_iff.1 h]
  rfl

/-- Where no step can be taken, the scanner stays where it is. -/
theorem offsets_step?_none (hs : s.cursor.At source) (h : step? s = none) :
    s.offsets.step? source.toList = some ([], s.offsets) := by
  rw [offsets_step? hs hsize, h]
  rfl

/-- Where a cursor moves on, so does the offset. -/
theorem Leads.offsets (h : Leads s events t) (hs : s.cursor.At source) :
    OffsetScanner.Leads source.toList s.offsets events t.offsets := by
  induction h with
  | refl s => exact .refl _
  | step hrest hstep _ ih =>
      exact .step (offset_lt hs hrest) (hstep.offsets hsize hs)
        (Nat.ne_of_gt (hstep.advances hrest)) (ih (hstep.place hs))

theorem Reads.offsets (h : Reads s events) (hs : s.cursor.At source) :
    OffsetScanner.Reads source.toList s.offsets events := by
  induction h with
  | @done s hrest =>
      have hoffset := hs.offset_add
      rw [hrest, Text.byteLength_nil, Nat.add_zero] at hoffset
      rw [hoffset, ← offsets_closeRest hsize]
      exact .done (Nat.le_of_eq hoffset.symm)
  | step hrest hstep _ ih =>
      exact .step (offset_lt hs hrest) (hstep.offsets hsize hs)
        (Nat.ne_of_gt (hstep.advances hrest)) (ih (hstep.place hs))
  | @malformed s hrest hnone =>
      have hoffset : (s.cursor.advance s.cursor.rest []).offset = byteLength source.toList :=
        hs.offset_add
      rw [hoffset, ← offsets_closeRest hsize]
      exact .malformed (offset_lt hs hrest) (offsets_step?_none hsize hs hnone) rfl
        (offsets_malformed? hsize hs)

/-- The offset moves on only where the cursor does. -/
theorem leads_of_offsets (h : OffsetScanner.Leads source.toList s.offsets events o)
    (hs : s.cursor.At source) : ∃ t, Leads s events t ∧ t.offsets = o := by
  generalize hfirst : s.offsets = first at h
  induction h generalizing s with
  | refl _ => exact ⟨s, .refl s, hfirst⟩
  | step hindex hstep hne _ ih =>
      subst hfirst
      have hrest : s.cursor.rest ≠ [] := by
        intro hnil
        have hoffset := hs.offset_add
        rw [hnil, Text.byteLength_nil, Nat.add_zero] at hoffset
        exact absurd hindex (Nat.not_lt.2 (Nat.le_of_eq hoffset.symm))
      cases hread : step? s with
      | none =>
          rw [offsets_step?_none hsize hs hread] at hstep
          cases hstep
          exact absurd rfl hne
      | some result =>
          have hnext : Step s result.1 result.2 := step_iff.2 hread
          rw [hnext.offsets hsize hs] at hstep
          cases hstep
          rcases ih (hnext.place hs) rfl with ⟨t, hleads, ht⟩
          exact ⟨t, .step hrest hnext hleads, ht⟩

/-- No cut fails where a cursor stands. -/
theorem not_breaks (hs : s.cursor.At source) : ¬s.offsets.Breaks source.toList := by
  rintro ⟨_, hnone | ⟨events, next, hstep, heq, hnone⟩⟩
  · rw [offsets_step? hs hsize] at hnone
    cases hnone
  · rw [heq, show s.offsets.index = s.cursor.offset from rfl, offsets_malformed? hsize hs] at hnone
    cases hnone

end Short

theorem stuck_offsets_iff (hs : s.cursor.At source) :
    s.offsets.Stuck source.toList ↔ s.Stuck := by
  have hcut : Text.from? s.offsets.index source.toList = some s.cursor.rest := hs.from?_eq
  constructor
  · rintro ⟨hraw, rest, hrest, hunreadable⟩
    cases hcut.symm.trans hrest
    exact ⟨hraw, hunreadable⟩
  · rintro ⟨hraw, hunreadable⟩
    exact ⟨hraw, _, hcut, hunreadable⟩

end Scanner

namespace OffsetScanner

variable {source : String} {s : OffsetScanner} {events : List Event}

/-- A short source leads where it leads a cursor. -/
theorem leads_iff (hsize : byteLength source.toList ≤ Span.maxOffset) :
    Leads source.toList ⟨0, []⟩ events s ↔
      ∃ t, Scanner.Leads (Scanner.ofText source) events t ∧ t.offsets = s := by
  have hs : (Scanner.ofText source).cursor.At source := Cursor.at_ofText source
  constructor
  · intro h
    exact Scanner.leads_of_offsets hsize (s := Scanner.ofText source) h hs
  · rintro ⟨t, h, rfl⟩
    exact h.offsets hsize hs

/-- The reading of a short source ends with the events of a scan, and in no other way. -/
theorem reads_iff (hsize : byteLength source.toList ≤ Span.maxOffset) :
    Reads source.toList ⟨0, []⟩ events ↔ events = scan source := by
  have hreads : Reads source.toList ⟨0, []⟩ (scan source) :=
    (reads_scan source).offsets hsize (Cursor.at_ofText source)
  constructor
  · intro h
    exact h.unique hreads
  · rintro rfl
    exact hreads

theorem Leads.boundary (hsize : byteLength source.toList ≤ Span.maxOffset)
    (h : Leads source.toList ⟨0, []⟩ events s) : Text.Boundary source s.index := by
  rcases (leads_iff hsize).1 h with ⟨t, ht, rfl⟩
  exact (ht.place (Cursor.at_ofText source)).boundary

/-- Wherever the reading of a short source comes to, no cut fails. -/
theorem Leads.not_breaks (hsize : byteLength source.toList ≤ Span.maxOffset)
    (h : Leads source.toList ⟨0, []⟩ events s) : ¬s.Breaks source.toList := by
  rcases (leads_iff hsize).1 h with ⟨t, ht, rfl⟩
  exact Scanner.not_breaks hsize (ht.place (Cursor.at_ofText source))

theorem reports_scan (hsize : byteLength source.toList ≤ Span.maxOffset) :
    Reports source.toList (scan source) :=
  .inr ((reads_iff hsize).2 rfl)

/-- Of a short source the events of a scan are reported, in their order. -/
theorem Reports.scan_eq (hsize : byteLength source.toList ≤ Span.maxOffset)
    (h : Reports source.toList events) : ∃ more, scan source = events ++ more := by
  rcases h with ⟨s, hleads⟩ | hreads
  · rcases (leads_iff hsize).1 hleads with ⟨t, ht, _⟩
    rcases Scanner.exists_reads t with ⟨more, hmore⟩
    exact ⟨more, Scanner.reads_iff.1 (ht.reads hmore)⟩
  · exact ⟨[], by rw [(reads_iff hsize).1 hreads, List.append_nil]⟩

theorem le_maxOffset (hsize : byteLength source.toList < UInt32.size) :
    byteLength source.toList ≤ Span.maxOffset :=
  Nat.le_sub_one_of_lt hsize

/-- In a source of less than 4 GiB a reading ends, with the events of a scan and in no other way. On
its way it always stands between characters, and no cut fails. Each place is the end of the source,
or one where the reading is stuck, or the reading moves on from there by one step. There is a
warning of malformed markup just if the reading gets stuck, and then it is the only one: what is
left becomes a text, the warning spans that text, and all that is still open is closed, innermost
first, with a warning each. -/
theorem reading_advances (source : String) (hsize : byteLength source.toList < UInt32.size) :
    (∀ events, Reads source.toList ⟨0, []⟩ events ↔ events = scan source) ∧
    (∀ events s, Leads source.toList ⟨0, []⟩ events s →
      Text.Boundary source s.index ∧ ¬s.Breaks source.toList ∧
        (s.index = byteLength source.toList ∨ s.Stuck source.toList ∨
          ∃ more next, s.step? source.toList = some (more, next) ∧ s.index < next.index)) ∧
    (∃ events last, Leads source.toList ⟨0, []⟩ events last ∧
      (last.index = byteLength source.toList ∧
          scan source = events ++ Scanner.closeRest (byteLength source.toList) last.opened ∨
        last.Stuck source.toList)) ∧
    (scan source).countP Event.isMalformed ≤ 1 ∧
    ((∃ event ∈ scan source, event.isMalformed) ↔
      ∃ events s, Leads source.toList ⟨0, []⟩ events s ∧ s.Stuck source.toList) ∧
    ∀ events s, Leads source.toList ⟨0, []⟩ events s → s.Stuck source.toList →
      ∃ opens rest, Event.Enclosing events opens ∧ Text.from? s.index source.toList = some rest ∧
        scan source = events ++
          [.text (String.ofList rest) ⟨s.index, byteLength source.toList⟩,
            .warned ⟨.malformedTag (Scanner.fragment rest),
              ⟨s.index, byteLength source.toList⟩⟩] ++
          opens.flatMap fun start =>
            [.warned ⟨.missingEndTag start.2.name, start.2.span⟩,
              .closed start.2.name (.empty (byteLength source.toList))] := by
  have hle : byteLength source.toList ≤ Span.maxOffset := le_maxOffset hsize
  have hplace {events : List Event} {t : Scanner} (h : Scanner.Leads (.ofText source) events t) :
      t.cursor.At source :=
    h.place (Cursor.at_ofText source)
  rcases scan_progress source with ⟨hways, ⟨events, last, hleads, hlast⟩, hcount, hmalformed, htail⟩
  refine ⟨fun _ => reads_iff hle, ?_, ?_, hcount, ?_, ?_⟩
  · intro events s hleads
    refine ⟨hleads.boundary hle, hleads.not_breaks hle, ?_⟩
    rcases (leads_iff hle).1 hleads with ⟨t, ht, rfl⟩
    rcases (hways events t ht).2.2 with hend | hstuck | ⟨more, next, hstep, hlt⟩
    · have hoffset := (hplace ht).offset_add
      rw [hend, Text.byteLength_nil, Nat.add_zero] at hoffset
      exact .inl hoffset
    · exact .inr (.inl ((Scanner.stuck_offsets_iff (hplace ht)).2 hstuck))
    · have hnext := (Scanner.step_iff.2 hstep).offsets hle (hplace ht)
      exact .inr (.inr ⟨more, next.offsets, hnext, hlt⟩)
  · refine ⟨events, last.offsets, (leads_iff hle).2 ⟨last, hleads, rfl⟩, hlast.imp ?_ ?_⟩
    · rintro ⟨hcursor, hscan⟩
      exact ⟨by rw [Scanner.offsets, hcursor], hscan⟩
    · exact (Scanner.stuck_offsets_iff (hplace hleads)).2
  · rw [hmalformed]
    constructor
    · rintro ⟨events, t, ht, hstuck⟩
      exact ⟨events, t.offsets, (leads_iff hle).2 ⟨t, ht, rfl⟩,
        (Scanner.stuck_offsets_iff (hplace ht)).2 hstuck⟩
    · rintro ⟨events, s, hs, hstuck⟩
      rcases (leads_iff hle).1 hs with ⟨t, ht, rfl⟩
      exact ⟨events, t, ht, (Scanner.stuck_offsets_iff (hplace ht)).1 hstuck⟩
  · intro events s hs hstuck
    rcases (leads_iff hle).1 hs with ⟨t, ht, rfl⟩
    rcases htail events t ht ((Scanner.stuck_offsets_iff (hplace ht)).1 hstuck) with
      ⟨opens, henclosing, hscan⟩
    exact ⟨opens, t.cursor.rest, henclosing, (hplace ht).from?_eq, hscan⟩

/-- The start tag does not end: the list in front of it is closed as well. -/
theorem reading_advances_unended :
    byteLength "<ul>x<li a".toList < UInt32.size ∧
      Reads "<ul>x<li a".toList ⟨0, []⟩
        [.opened ⟨"ul", [], false, ⟨0, 4⟩⟩ false, .text "x" ⟨4, 5⟩, .text "<li a" ⟨5, 10⟩,
          .warned ⟨.malformedTag "<li a", ⟨5, 10⟩⟩, .warned ⟨.missingEndTag "ul", ⟨0, 4⟩⟩,
          .closed "ul" (.empty 10)] ∧
      ∃ events s, Leads "<ul>x<li a".toList ⟨0, []⟩ events s ∧ s.Stuck "<ul>x<li a".toList ∧
        ¬s.Breaks "<ul>x<li a".toList := by
  have hsize : byteLength "<ul>x<li a".toList < UInt32.size := by decide
  have hscan : scan "<ul>x<li a" =
      [.opened ⟨"ul", [], false, ⟨0, 4⟩⟩ false, .text "x" ⟨4, 5⟩, .text "<li a" ⟨5, 10⟩,
        .warned ⟨.malformedTag "<li a", ⟨5, 10⟩⟩, .warned ⟨.missingEndTag "ul", ⟨0, 4⟩⟩,
        .closed "ul" (.empty 10)] := by
    decide +kernel
  rcases reading_advances "<ul>x<li a" hsize with ⟨hreads, hways, _, _, hmalformed, _⟩
  have hwarned : ∃ event ∈ scan "<ul>x<li a", event.isMalformed := by
    rw [hscan]
    exact ⟨.warned ⟨.malformedTag "<li a", ⟨5, 10⟩⟩, by simp, rfl⟩
  rcases hmalformed.1 hwarned with ⟨events, s, hleads, hstuck⟩
  exact ⟨hsize, (hreads _).2 hscan.symm, events, s, hleads, hstuck, (hways events s hleads).2.1⟩

/-! ## Longer sources -/

section Long

variable {front gap : List Char} {opened : List OpenTag} {events : List Event} {s : OffsetScanner}

/-- Only elements named `b` are open. -/
def OnlyBold (opened : List OpenTag) : Prop :=
  ∀ tag ∈ opened, tag.name = "b"

theorem OnlyBold.rawName? (h : OnlyBold opened) : Scanner.rawName? opened = none := by
  cases opened with
  | nil => rfl
  | cons tag outer =>
      have hraw : Tag.isRawText "b" = false := by decide +kernel
      rw [Scanner.rawName?, h tag List.mem_cons_self, hraw]
      rfl

theorem onlyBold_nil : OnlyBold [] :=
  List.forall_mem_nil _

theorem onlyBold_cons (h : OnlyBold opened) (span : Span) : OnlyBold (⟨"b", span⟩ :: opened) :=
  List.forall_mem_cons.2 ⟨rfl, h⟩

/-- Text is read up to the tag, however far off it is. -/
theorem step?_gap (hopened : OnlyBold opened) (hgap : '<' ∉ gap) (hne : gap ≠ [])
    (front : List Char) :
    step? (front ++ gap ++ "<b>".toList) ⟨byteLength front, opened⟩ =
      some ([.text (String.ofList gap) (.between (byteLength front) (byteLength (front ++ gap)))],
        ⟨byteLength (front ++ gap), opened⟩) := by
  let s : Scanner := ⟨⟨byteLength front, gap ++ "<b>".toList⟩, opened⟩
  let source := String.ofList (front ++ gap ++ "<b>".toList)
  have hsource : source.toList = front ++ gap ++ "<b>".toList := String.toList_ofList
  have hs : s.cursor.At source := ⟨front, by rw [hsource, List.append_assoc], rfl⟩
  have hhead : ∀ rest, s.cursor.rest ≠ '<' :: rest := by
    intro rest hrest
    rcases List.exists_cons_of_ne_nil hne with ⟨c, tail, rfl⟩
    exact hgap (List.mem_cons.2 (.inl (List.cons.inj hrest).1.symm))
  have htext : Scanner.textOnto [] s.cursor.rest = (gap, "<b>".toList) :=
    Scanner.textOnto_append hgap (by decide) []
  rcases Scanner.no_markup hhead with ⟨hdecl, hend, hstart⟩
  have hread := Scanner.offsets_readMarkup? hs
  rw [hdecl, hend, hstart] at hread
  dsimp only at hread
  rw [Scanner.offsets_readText? hs htext hne, hsource] at hread
  rw [step?, hopened.rawName?, Text.byteLength_append]
  exact hread

/-- Behind the tag the reading goes on where the span of the tag ends. -/
theorem step?_bold (hopened : OnlyBold opened) (front : List Char) :
    step? (front ++ "<b>".toList) ⟨byteLength front, opened⟩ =
      some ([.opened ⟨"b", [], false, .between (byteLength front) (byteLength front + 3)⟩ false],
        ⟨Span.clamp (byteLength front + 3),
          ⟨"b", .between (byteLength front) (byteLength front + 3)⟩ :: opened⟩) := by
  let s : Scanner := ⟨⟨byteLength front, "<b>".toList⟩, opened⟩
  let source := String.ofList (front ++ "<b>".toList)
  let tag : StartTag := ⟨"b", [], false, .between (byteLength front) (byteLength front + 3)⟩
  have hsource : source.toList = front ++ "<b>".toList := String.toList_ofList
  have hs : s.cursor.At source := ⟨front, hsource, rfl⟩
  have hdecl : Declaration.read? s.cursor.rest = none :=
    show Declaration.read? "<b>".toList = none by decide
  have hend : EndTag.read? s.cursor = none := rfl
  have hstart : StartTag.read? s.cursor =
      some (⟨"b", [], false, ⟨byteLength front, byteLength front + 3⟩⟩,
        ⟨byteLength front + 3, []⟩) := rfl
  have hread := Scanner.offsets_readMarkup? hs
  rw [hdecl, hend, hstart, hsource] at hread
  have hfits (parent : String) : Markup.Fits parent "b" :=
    ⟨fun h => absurd h.2 (by decide +kernel), fun h => absurd h.1 (by decide +kernel)⟩
  have hopen : Scanner.openTag tag ⟨tag.span.stop, []⟩ opened = _ :=
    Scanner.openTag_of_fits fun outside _ => hfits outside.name
  have hunary : Scanner.isUnary tag = false := by
    rw [Scanner.isUnary_plain]
    decide +kernel
  have hdrops : Tag.dropsFirstNewline tag.name = false :=
    show Tag.dropsFirstNewline "b" = false by decide +kernel
  rw [hunary] at hopen
  rw [step?, hopened.rawName?]
  refine hread.trans ?_
  change openTag? _ tag opened = _
  rw [openTag?, hopen, hunary, hdrops]
  rfl

/-- A reading does not end if there is a further step from all places of a kind, to another one of
them. -/
theorem not_reads_of_invariant {source : List Char} {P : OffsetScanner → Prop}
    (hstep : ∀ s, P s → s.index < byteLength source ∧ ∃ events next,
      s.step? source = some (events, next) ∧ next.index ≠ s.index ∧ P next)
    (hs : P s) : ¬Reads source s events := by
  intro h
  induction h with
  | done hindex => exact absurd (hstep _ hs).1 (Nat.not_lt.2 hindex)
  | step _ hstep' _ _ ih =>
      rcases (hstep _ hs).2 with ⟨_, _, hnext, _, hkept⟩
      cases hnext.symm.trans hstep'
      exact ih hkept
  | malformed _ hstep' heq _ =>
      rcases (hstep _ hs).2 with ⟨_, _, hnext, hne, _⟩
      cases hnext.symm.trans hstep'
      exact hne heq

/-- The places of a reading that has come to the tag behind `text`, or has text in front of the tag
left. -/
inductive Comes (text : List Char) (s : OffsetScanner) : Prop where
  | inside {front gap : List Char} :
      text = front ++ gap → gap ≠ [] → s.index = byteLength front → OnlyBold s.opened →
      Comes text s
  | tag : s.index = byteLength text → OnlyBold s.opened → Comes text s

/-- If the furthest offset is between two characters of the text, every step from inside the text
leads to the tag, and every one from the tag back into the text. -/
theorem comes_step (hplain : '<' ∉ front ++ gap) (hgap : gap ≠ [])
    (hfront : byteLength front = Span.maxOffset) (hs : Comes (front ++ gap) s) :
    s.index < byteLength (front ++ gap ++ "<b>".toList) ∧ ∃ events next,
      s.step? (front ++ gap ++ "<b>".toList) = some (events, next) ∧ next.index ≠ s.index ∧
        Comes (front ++ gap) next := by
  have hpos := Text.byteLength_pos hgap
  have htag : byteLength "<b>".toList = 3 := rfl
  rcases s with ⟨index, opened⟩
  cases hs with
  | @inside front' gap' htext hne hindex hopened =>
      have hindex : index = byteLength front' := hindex
      have hplain' : '<' ∉ gap' := fun hmem => hplain (htext ▸ List.mem_append_right front' hmem)
      have hstep := step?_gap hopened hplain' hne front'
      have hpos' := Text.byteLength_pos hne
      subst hindex
      rw [htext]
      refine ⟨?_, _, _, hstep, ?_, .tag rfl hopened⟩
      · rw [Text.byteLength_append, Text.byteLength_append]
        omega
      · dsimp only
        rw [Text.byteLength_append]
        omega
  | tag hindex hopened =>
      have hindex : index = byteLength (front ++ gap) := hindex
      have hstep := step?_bold hopened (front ++ gap)
      have hclamp : Span.clamp (byteLength (front ++ gap) + 3) = byteLength front := by
        rw [Text.byteLength_append, Span.clamp, hfront]
        exact Nat.min_eq_right (by omega)
      subst hindex
      refine ⟨?_, _, _, hstep, ?_, .inside rfl hgap hclamp (onlyBold_cons hopened _)⟩
      · rw [Text.byteLength_append (front ++ gap)]
        omega
      · dsimp only
        rw [hclamp, Text.byteLength_append]
        omega

theorem not_reads_of_long (hplain : '<' ∉ front ++ gap) (hgap : gap ≠ [])
    (hfront : byteLength front = Span.maxOffset) (events : List Event) :
    ¬Reads (front ++ gap ++ "<b>".toList) ⟨0, []⟩ events := by
  have hne : front ++ gap ≠ [] := List.append_ne_nil_of_right_ne_nil _ hgap
  exact not_reads_of_invariant (fun _ hs => comes_step hplain hgap hfront hs)
    (.inside (List.nil_append _).symm hne rfl onlyBold_nil)

/-- From the start the reading comes to the tag. -/
theorem leads_tag (hgap : '<' ∉ gap) (hne : gap ≠ []) :
    Leads (gap ++ "<b>".toList) ⟨0, []⟩
      [.text (String.ofList gap) (.between 0 (byteLength gap))] ⟨byteLength gap, []⟩ := by
  have hpos := Text.byteLength_pos hne
  have hstep := step?_gap onlyBold_nil hgap hne []
  simp only [List.nil_append, Text.byteLength_nil] at hstep
  have hindex : 0 < byteLength (gap ++ "<b>".toList) := by
    rw [Text.byteLength_append]
    exact Nat.add_pos_left hpos _
  exact Leads.step hindex hstep (Nat.ne_of_gt hpos) (.refl _)

/-- From a tag that is too far off the reading goes back to the furthest offset. -/
theorem step?_back (hlong : Span.maxOffset < byteLength gap) :
    step? (gap ++ "<b>".toList) ⟨byteLength gap, []⟩ =
      some ([.opened ⟨"b", [], false, ⟨Span.maxOffset, Span.maxOffset⟩⟩ false],
        ⟨Span.maxOffset, [⟨"b", ⟨Span.maxOffset, Span.maxOffset⟩⟩]⟩) := by
  have hstart : Span.clamp (byteLength gap) = Span.maxOffset :=
    Nat.min_eq_right (Nat.le_of_lt hlong)
  have hstop : Span.clamp (byteLength gap + 3) = Span.maxOffset :=
    Nat.min_eq_right (Nat.le_of_lt (Nat.lt_add_right 3 hlong))
  have hstep := step?_bold onlyBold_nil gap
  rwa [Span.between, hstart, hstop] at hstep

theorem goes_back (hgap : '<' ∉ gap) (hlong : Span.maxOffset < byteLength gap) :
    ∃ events s more next, Leads (gap ++ "<b>".toList) ⟨0, []⟩ events s ∧
      s.step? (gap ++ "<b>".toList) = some (more, next) ∧ next.index < s.index := by
  have hne : gap ≠ [] := by
    rintro rfl
    exact absurd hlong (by decide)
  exact ⟨_, _, _, _, leads_tag hgap hne, step?_back hlong, hlong⟩

/-- Text of letters alone, whose bytes are as many as its characters. -/
theorem byteLength_letters (n : Nat) : byteLength (List.replicate n 'a') = n := by
  rw [Text.byteLength_of_ascii, List.length_replicate]
  intro c hc
  rw [List.eq_of_mem_replicate hc]
  decide

theorem plain_letters (n : Nat) : '<' ∉ List.replicate n 'a' := by
  intro h
  cases List.eq_of_mem_replicate h

/-- Behind 4 GiB of letters a tag leads back to the last of them, so that the reading never ends. -/
theorem reading_endless :
    (∃ events s more next,
      Leads (List.replicate UInt32.size 'a' ++ "<b>".toList) ⟨0, []⟩ events s ∧
        s.step? (List.replicate UInt32.size 'a' ++ "<b>".toList) = some (more, next) ∧
        next.index < s.index) ∧
    ∀ events, ¬Reads (List.replicate UInt32.size 'a' ++ "<b>".toList) ⟨0, []⟩ events := by
  have hsplit : List.replicate UInt32.size 'a' = List.replicate Span.maxOffset 'a' ++ ['a'] :=
    List.replicate_succ' (n := Span.maxOffset)
  have hlong : Span.maxOffset < byteLength (List.replicate UInt32.size 'a') := by
    rw [byteLength_letters]
    decide
  have hplain := plain_letters UInt32.size
  refine ⟨goes_back hplain hlong, ?_⟩
  rw [hsplit] at hplain ⊢
  exact not_reads_of_long hplain (by decide) (byteLength_letters _)

end Long

end OffsetScanner

end TemplateMarkup
