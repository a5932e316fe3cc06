import TemplateMarkup.Proofs.Scan.Course

/-!
# How elements end

An element ends with an end tag of its own, before a start tag that cannot stand in it, or without
an end tag at the end of something around it. The last two are announced by a warning. This file
defines:

* `EndKind` — the three ways to end, and `Event.announces event` — the one that an event announces
  of the end event behind it,
* `Event.ownCloses kind events` — the number of end events that nothing announces,
* `Event.Paired events` — what announces an end event stands directly in front of it,
* `Scanner.Ends source before tag opens after span kind` — the element of `tag`, which is open
  behind `before`, ends with `span` as `kind` says.

Every end event of a source ends in exactly one of these ways (`scan_endings`).
-/

namespace TemplateMarkup

inductive EndKind where
  /-- By an end tag of its own. -/
  | own
  /-- By a start tag that ends it. -/
  | implicit
  /-- By an end tag of an element around it, or by the end of the source. -/
  | missing
  deriving DecidableEq, Repr

namespace Event

variable {event : Event} {events more before after : List Event}

/-- How the end event behind an event ends its element. -/
def announces : Event → EndKind
  | .warned ⟨.implicitlyClosed _ _, _⟩ => .implicit
  | .warned ⟨.missingEndTag _, _⟩ => .missing
  | _ => .own

/-- Whether an event opens an element that is to be closed. -/
def isElement : Event → Bool
  | .opened _ unary => !unary
  | _ => false

def isEnd : Event → Bool
  | .closed _ _ => true
  | _ => false

/-- The number of end events that are not announced, where `kind` is announced of the first
event. -/
def ownCloses (kind : EndKind) : List Event → Nat
  | [] => 0
  | event :: events =>
      (if event.isEnd ∧ kind = .own then 1 else 0) + ownCloses event.announces events

/-! ## Announced ends -/

/-- Behind everything that announces an end event there is one. -/
inductive Paired : List Event → Prop where
  | nil : Paired []
  | plain {event : Event} {events : List Event} :
      event.announces = .own → Paired events → Paired (event :: events)
  | announced {warning : Warning} {name : String} {span : Span} {events : List Event} :
      Paired events → Paired (.warned warning :: .closed name span :: events)

theorem Paired.append (h : Paired events) (hmore : Paired more) : Paired (events ++ more) := by
  induction h with
  | nil => exact hmore
  | plain hevent _ ih => exact .plain hevent ih
  | announced _ ih => exact .announced ih

/-- The end events are the announced ones and the others. -/
theorem Paired.countP_isEnd (h : Paired events) :
    events.countP isEnd =
      ownCloses .own events + events.countP (·.announces = .implicit) +
        events.countP (·.announces = .missing) := by
  induction h with
  | nil => rfl
  | @plain event events hevent _ ih =>
      simp only [ownCloses, List.countP_cons, hevent, ih]
      cases event with
      | closed name span =>
          simp [isEnd]
          omega
      | opened tag unary => simp [isEnd]
      | text content span => simp [isEnd]
      | warned warning => simp [isEnd]
  | @announced warning name span events _ ih =>
      have hname : announces (.closed name span) = .own := rfl
      simp only [ownCloses, List.countP_cons, hname, ih]
      cases (Event.warned warning).announces with
      | own =>
          simp [isEnd]
          omega
      | implicit =>
          simp [isEnd]
          omega
      | missing =>
          simp [isEnd]
          omega

/-- What announces an end event stands directly in front of it. -/
theorem Paired.closed_behind (h : Paired (before ++ event :: after))
    (hevent : event.announces ≠ .own) : ∃ name span rest, after = .closed name span :: rest := by
  generalize hevents : before ++ event :: after = events at h
  induction h generalizing before with
  | nil => simp at hevents
  | plain hfirst _ ih =>
      cases before with
      | nil =>
          obtain ⟨rfl, _⟩ := List.cons.inj hevents
          exact absurd hfirst hevent
      | cons first before => exact ih (List.cons.inj hevents).2
  | @announced warning name span events _ ih =>
      match before with
      | [] => exact ⟨name, span, events, (List.cons.inj hevents).2⟩
      | [first] =>
          -- An end event announces nothing.
          obtain ⟨rfl, _⟩ := List.cons.inj (List.cons.inj hevents).2
          exact absurd rfl hevent
      | first :: second :: before =>
          exact ih (List.cons.inj (List.cons.inj hevents).2).2

theorem Balanced.countP_isElement (h : Balanced events) :
    events.countP isElement = events.countP isEnd := by
  induction h with
  | nil => rfl
  | text _ ih => simpa [isElement, isEnd] using ih
  | warned _ ih => simpa [isElement, isEnd] using ih
  | unary _ ih => simpa [isElement, isEnd] using ih
  | element _ _ ihinside ih =>
      simp only [List.countP_cons, List.countP_append, ihinside, ih]
      simp [isElement, isEnd]
      omega

/-! ## The last event -/

/-- No warning comes last. -/
def Quiet (events : List Event) : Prop :=
  ∀ warning, events.getLast? ≠ some (.warned warning)

theorem quiet_nil : Quiet [] := by
  intro warning h
  cases h

theorem Quiet.append (h : Quiet events) (hmore : Quiet more) : Quiet (events ++ more) := by
  intro warning hlast
  rw [List.getLast?_append, Option.or_eq_some_iff] at hlast
  rcases hlast with hlast | ⟨_, hlast⟩
  · exact hmore warning hlast
  · exact h warning hlast

/-- What the last event announces. -/
def announced (events : List Event) : EndKind :=
  events.getLast?.elim .own announces

theorem announced_concat (events : List Event) (event : Event) :
    announced (events ++ [event]) = event.announces := by
  simp [announced]

theorem Quiet.announced_eq (h : Quiet events) : announced events = .own := by
  unfold announced
  cases hlast : events.getLast? with
  | none => rfl
  | some event =>
      cases event with
      | warned warning => exact absurd hlast (h warning)
      | opened _ _ => rfl
      | closed _ _ => rfl
      | text _ _ => rfl

end Event

namespace Scanner

open Event

variable {source name : String} {span : Span} {s t next : Scanner}
  {events more before after front mid tail : List Event} {closing opened outer : List OpenTag}
  {opens : List Numbered}

/-! ## What a step reports -/

theorem Closes.paired (h : Closes span closing events) : Paired events := by
  induction h with
  | nil => exact .nil
  | own _ ih => exact .plain rfl ih
  | warned _ ih => exact .announced ih

theorem Closes.quiet (h : Closes span closing events) : Quiet events := by
  induction h with
  | nil => exact quiet_nil
  | @own tag _ _ _ ih =>
      have hfirst : Quiet [.closed tag.name span] := by simp [Quiet]
      exact hfirst.append ih
  | @warned tag warning _ _ _ ih =>
      have hfirst : Quiet [.warned warning, .closed tag.name span] := by simp [Quiet]
      exact hfirst.append ih

theorem rawEvents_paired_quiet (name : String) (body : List Char) (span : Span) :
    Paired (rawEvents name body span) ∧ Quiet (rawEvents name body span) := by
  unfold rawEvents
  split
  · exact ⟨.nil, quiet_nil⟩
  · exact ⟨.plain rfl .nil, by simp [Quiet]⟩

/-- Warnings of a step stand directly in front of end events. -/
theorem Step.paired_quiet (h : Step s events next) : Paired events ∧ Quiet events := by
  cases h with
  | declaration _ _ => exact ⟨.nil, quiet_nil⟩
  | @endTag tag _ _ _ _ =>
      rcases closes_closeNamed tag.name tag.span s.opened with ⟨_, _, hcloses, _⟩
      exact ⟨hcloses.paired, hcloses.quiet⟩
  | @startTag tag after _ _ _ _ =>
      rcases closes_openTag tag after s.opened with ⟨_, ended, _, hcloses, heq⟩
      rw [heq]
      exact ⟨hcloses.paired.append (.plain rfl .nil), hcloses.quiet.append (by simp [Quiet])⟩
  | text _ _ _ _ _ _ => exact ⟨.plain rfl .nil, by simp [Quiet]⟩
  | rawRest _ _ => exact rawEvents_paired_quiet _ _ _
  | @rawEnded name ended stop after _ _ _ _ =>
      rcases closes_closeNamed name ⟨stop.offset, after.offset⟩ s.opened with ⟨_, _, hcloses, _⟩
      rcases rawEvents_paired_quiet name ended.body ⟨s.cursor.offset, stop.offset⟩ with
        ⟨hpaired, hquiet⟩
      exact ⟨hpaired.append hcloses.paired, hquiet.append hcloses.quiet⟩

theorem Leads.quiet (h : Leads s events t) : Quiet events := by
  induction h with
  | refl s => exact quiet_nil
  | step _ hstep _ ih => exact hstep.paired_quiet.2.append ih

theorem Reads.paired (h : Reads s events) : Paired events := by
  induction h with
  | done _ => exact (closes_closeAll _ _).paired
  | step _ hstep _ ih => exact hstep.paired_quiet.1.append ih
  | @malformed s _ _ =>
      have hmalformed : Paired (Scanner.malformed s.cursor) := .plain rfl (.plain rfl .nil)
      exact hmalformed.append (closes_closeAll _ _).paired

/-! ## The ways to end -/

/-- The element of `tag`, which is open behind `before` and stands inside of `opens`, ends with
`span`. -/
inductive Ends (source : String) (before : List Event) (tag : StartTag) (opens : List Numbered)
    (after : List Event) : Span → EndKind → Prop where
  /-- An end tag of the element stands there, and there is no warning. -/
  | own {span : Span} :
      Quiet before → ClosedBy source tag.name span [] → Ends source before tag opens after span .own
  /-- The next start event ends the element in front of it. -/
  | implicit {front mid rest : List Event} {next : StartTag} {unary : Bool} :
      before = front ++ [.warned ⟨.implicitlyClosed tag.name next.name, next.span⟩] →
      after = mid ++ .opened next unary :: rest → startCount mid = 0 →
      Ends source before tag opens after (.empty next.span.start) .implicit
  /-- An end tag of an element around it stands there, and ends that element further on. -/
  | inside {front mid rest : List Event} {span : Span} {around : Numbered}
      {outer : List Numbered} :
      before = front ++ [.warned ⟨.missingEndTag tag.name, tag.span⟩] →
      after = mid ++ .closed around.2.name span :: rest →
      Enclosing (before ++ .closed tag.name span :: mid) (around :: outer) →
      around :: outer <:+ opens → ClosedBy source around.2.name span [] →
      Ends source before tag opens after span .missing
  /-- The source ends. -/
  | atEnd {front : List Event} :
      before = front ++ [.warned ⟨.missingEndTag tag.name, tag.span⟩] →
      Ends source before tag opens after (.empty (Text.byteLength source.toList)) .missing

/-- The way an element ends can be told from the event in front. -/
theorem Ends.kind_eq {tag : StartTag} {kind : EndKind}
    (h : Ends source before tag opens after span kind) : kind = announced before := by
  cases h with
  | own hquiet _ => exact hquiet.announced_eq.symm
  | implicit hbefore _ _ =>
      rw [hbefore, announced_concat]
      rfl
  | inside hbefore _ _ _ _ =>
      rw [hbefore, announced_concat]
      rfl
  | atEnd hbefore =>
      rw [hbefore, announced_concat]
      rfl

/-- An end event: the element it ends is the innermost one that is open, and has its name. -/
def EndsInnermost (source : String) (before : List Event) (name : String) (span : Span)
    (after : List Event) : Prop :=
  ∃ n tag opens kind, Enclosing before ((n, tag) :: opens) ∧ tag.name = name ∧
    Ends source before tag opens after span kind

theorem Tracks.warned (h : Tracks events opened opens) (warning : Warning) :
    Tracks (events ++ [.warned warning]) opened opens :=
  h.append (.warned .nil)

/-! ## Elements without an end tag -/

/-- Where an end event stands among those of elements without an end tag: it is one of these, or
comes behind them. -/
theorem closeMissing_split {span' : Span}
    (h : opened.flatMap (closeMissing span) ++ more = mid ++ .closed name span' :: tail) :
    (∃ inner tag outer, opened = inner ++ tag :: outer ∧ name = tag.name ∧ span' = span ∧
        mid = inner.flatMap (closeMissing span) ++ [.warned ⟨.missingEndTag tag.name, tag.span⟩] ∧
        tail = outer.flatMap (closeMissing span) ++ more) ∨
      ∃ mid', mid = opened.flatMap (closeMissing span) ++ mid' ∧
        more = mid' ++ .closed name span' :: tail := by
  induction opened generalizing mid with
  | nil => exact .inr ⟨mid, rfl, h⟩
  | cons first opened ih =>
      simp only [List.flatMap_cons, closeMissing, List.cons_append, List.nil_append] at h
      -- Each element reports two events, so the first two events of `mid` are told apart.
      match mid with
      | [] => simp at h
      | [event] =>
          simp only [List.cons_append, List.nil_append, List.cons.injEq, Event.closed.injEq] at h
          obtain ⟨rfl, ⟨rfl, rfl⟩, rfl⟩ := h
          exact .inl ⟨[], first, opened, rfl, rfl, rfl, rfl, rfl⟩
      | event :: event' :: mid =>
          simp only [List.cons_append, List.cons.injEq] at h
          obtain ⟨rfl, rfl, hrest⟩ := h
          rcases ih hrest with ⟨inner, tag, outer, rfl, rfl, rfl, rfl, rfl⟩ | ⟨mid', rfl, hmore⟩
          · exact .inl ⟨first :: inner, tag, outer, rfl, rfl, rfl, rfl, rfl⟩
          · exact .inr ⟨mid', rfl, hmore⟩

/-- At the end of the source all that is open ends. -/
theorem endsInnermost_closeRest (htracks : Tracks front opened opens)
    (hsplit : closeRest (Text.byteLength source.toList) opened =
      mid ++ .closed name span :: tail) (later : List Event) :
    EndsInnermost source (front ++ mid) name span (tail ++ later) := by
  have happend : opened.flatMap (closeMissing (.empty (Text.byteLength source.toList))) ++ [] =
      mid ++ .closed name span :: tail := by
    simpa [closeRest] using hsplit
  rcases closeMissing_split happend with ⟨inner, tag, outer, rfl, rfl, rfl, rfl, _⟩ | ⟨_, _, hnil⟩
  · rcases htracks.closes (closes_closeAll _ inner) with ⟨around, _, _, _, hbehind⟩
    rcases (hbehind.warned ⟨.missingEndTag tag.name, tag.span⟩).innermost with
      ⟨n, start, around, rfl, rfl, _, henclosing⟩
    rw [List.append_assoc] at henclosing
    exact ⟨n, start, around, .missing, henclosing, rfl, .atEnd (List.append_assoc _ _ _).symm⟩
  · simp at hnil

/-! ## End tags -/

/-- An end tag ends an element of its name, behind those inside of it. -/
theorem endsInnermost_own {inner : List OpenTag} {target : OpenTag}
    (htracks : Tracks front (inner ++ target :: outer) opens) (hquiet : Quiet front)
    (hown : ClosedBy source target.name span []) (after : List Event) :
    EndsInnermost source (front ++ inner.flatMap (closeMissing span)) target.name span after := by
  have hcloses := closes_closeAll span inner
  rcases htracks.closes hcloses with ⟨_, _, _, _, hbehind⟩
  rcases hbehind.innermost with ⟨n, start, around, rfl, rfl, _, henclosing⟩
  exact ⟨n, start, around, .own, henclosing, rfl, .own (hquiet.append hcloses.quiet) hown⟩

/-- An element inside of the one that an end tag names ends with it. -/
theorem endsInnermost_inside {first between : List OpenTag} {missed target : OpenTag}
    (htracks : Tracks front (first ++ missed :: (between ++ target :: outer)) opens)
    (hown : ClosedBy source target.name span []) (later : List Event) :
    EndsInnermost source
      (front ++ (first.flatMap (closeMissing span) ++
        [.warned ⟨.missingEndTag missed.name, missed.span⟩]))
      missed.name span
      (between.flatMap (closeMissing span) ++ .closed target.name span :: later) := by
  rcases htracks.closes (closes_closeAll span first) with ⟨_, _, _, _, hbehind⟩
  have hwarned := hbehind.warned ⟨.missingEndTag missed.name, missed.span⟩
  rw [List.append_assoc] at hwarned
  rcases hwarned.innermost with ⟨n, start, around, rfl, rfl, _, henclosing⟩
  -- Behind what ends between the two, the element of the end tag is the innermost one.
  rcases hwarned.closed span with ⟨_, _, _, heq, _, hclosed⟩
  obtain ⟨_, rfl⟩ := List.cons.inj heq
  rcases hclosed.closes (closes_closeAll span between) with ⟨_, skipped, rfl, _, hreached⟩
  rcases hreached.innermost with ⟨m, start', around', rfl, rfl, _, henclosing'⟩
  refine ⟨n, start, _, .missing, henclosing, rfl, ?_⟩
  refine .inside (List.append_assoc _ _ _).symm rfl ?_ (List.suffix_append _ _) hown
  simpa using henclosing'

/-- An end tag ends the innermost element of its name, and those inside of it without an end tag of
their own. -/
theorem endsInnermost_endTag {tag : EndTag} {stop : Cursor} (hplace : s.cursor.At source)
    (hinner : RawInnermost s.opened) (hraw : rawName? s.opened = none)
    (hend : EndTag.read? s.cursor = some (tag, stop)) (htracks : Tracks front s.opened opens)
    (hquiet : Quiet front)
    (hsplit : (closeNamed tag.name tag.span s.opened).1 = mid ++ .closed name span :: tail)
    (later : List Event) : EndsInnermost source (front ++ mid) name span (tail ++ later) := by
  rcases exists_innermost tag.name s.opened with
    hnone | ⟨inner, target, outer, hopened, hinside, htarget⟩
  · rw [closeNamed_of_none hnone] at hsplit
    simp at hsplit
  · have hevents : (closeNamed tag.name tag.span s.opened).1 =
        inner.flatMap (closeMissing tag.span) ++ [.closed target.name tag.span] := by
      rw [hopened, closeNamed_of_innermost hinside htarget]
    -- The last of the end events is that of the end tag itself.
    have hown : ClosedBy source target.name tag.span [] :=
      closedBy_endTag hplace (hinner.not_raw hraw) hend hevents
    rw [hevents] at hsplit
    rw [hopened] at htracks
    rcases closeMissing_split hsplit with
      ⟨first, missed, between, rfl, rfl, rfl, rfl, rfl⟩ | ⟨mid', rfl, hlast⟩
    · rw [List.append_assoc] at htracks
      simpa using endsInnermost_inside htracks hown later
    · cases mid' with
      | nil =>
          simp only [List.nil_append, List.cons.injEq, Event.closed.injEq] at hlast
          obtain ⟨⟨rfl, rfl⟩, rfl⟩ := hlast
          simpa using endsInnermost_own htracks hquiet hown later
      | cons event mid' => simp at hlast

/-- The end of raw text ends the element that it is the content of. -/
theorem closeNamed_rawName? (h : rawName? opened = some name) (span : Span) :
    ∃ top outer, opened = top :: outer ∧ closeNamed name span opened =
      ([.closed top.name span], outer) := by
  unfold rawName? at h
  split at h
  · next top outer =>
      split at h
      · next htop =>
          cases h
          exact ⟨top, outer, rfl, by simp [closeNamed, sameName_toLower htop]⟩
      · cases h
  · cases h

theorem endsInnermost_rawEnded {raw : String} {ended : RawText.Ended} {stop behind : Cursor}
    {body : Span} (hplace : stop.At source) (hraw : rawName? s.opened = some raw)
    (hend : RawText.end? raw s.cursor.rest = some ended) (htakes : stop.Takes ended.endTag behind)
    (htracks : Tracks front s.opened opens) (hquiet : Quiet front)
    (hsplit : rawEvents raw ended.body body ++
      (closeNamed raw ⟨stop.offset, behind.offset⟩ s.opened).1 = mid ++ .closed name span :: tail)
    (later : List Event) : EndsInnermost source (front ++ mid) name span (tail ++ later) := by
  rcases closeNamed_rawName? hraw ⟨stop.offset, behind.offset⟩ with ⟨top, outer, hopened, hcloses⟩
  have hown : ClosedBy source top.name ⟨stop.offset, behind.offset⟩ [] := by
    refine closedBy_rawEnded hplace hraw hend htakes ?_
    rw [hcloses]
    exact List.mem_singleton_self _
  rw [hcloses] at hsplit
  rcases eq_or_mem_of_concat hsplit with ⟨hlast, rfl⟩ | ⟨hmem, _⟩
  · obtain ⟨rfl, rfl⟩ := Event.closed.inj hlast
    obtain ⟨rfl, _⟩ := List.append_inj' hsplit rfl
    have hbody := htracks.append (balanced_rawEvents raw ended.body body)
    rw [hopened] at hbody
    have hquiet' := hquiet.append (rawEvents_paired_quiet raw ended.body body).2
    have hends : EndsInnermost source
        (front ++ rawEvents raw ended.body body ++ ([] : List OpenTag).flatMap (closeMissing _))
        top.name ⟨stop.offset, behind.offset⟩ later :=
      endsInnermost_own hbody hquiet' hown later
    simpa using hends
  · exact absurd hmem (closed_not_mem_rawEvents _ _ _)

/-! ## Start tags -/

theorem Closes.startCount_eq (h : Closes span closing events) : startCount events = 0 := by
  induction h with
  | nil => rfl
  | own _ ih => simpa [startCount] using ih
  | warned _ ih => simpa [startCount] using ih

/-- Where an end event stands behind a check of a start tag: it is what the check reports, or comes
behind it. -/
theorem closeBefore_split {tag : StartTag} {ends : OpenTag → Bool}
    (h : (closeBefore tag ends opened).1 ++ more = mid ++ .closed name span :: tail) :
    (∃ top outer, opened = top :: outer ∧ name = top.name ∧ span = .empty tag.span.start ∧
        mid = [.warned ⟨.implicitlyClosed top.name tag.name, tag.span⟩] ∧ tail = more) ∨
      ∃ mid', mid = (closeBefore tag ends opened).1 ++ mid' ∧
        more = mid' ++ .closed name span :: tail := by
  cases opened with
  | nil => exact .inr ⟨mid, rfl, h⟩
  | cons top outer =>
      cases hends : ends top with
      | false =>
          simp only [closeBefore, hends, Bool.false_eq_true, if_false, List.nil_append] at h ⊢
          exact .inr ⟨mid, rfl, h⟩
      | true =>
          simp only [closeBefore, hends, if_true] at h ⊢
          rcases mid with _ | ⟨event, _ | ⟨event', mid⟩⟩
          · simp at h
          · simp only [List.cons_append, List.nil_append, List.cons.injEq,
              Event.closed.injEq] at h
            obtain ⟨rfl, ⟨rfl, rfl⟩, rfl⟩ := h
            exact .inl ⟨top, outer, rfl, rfl, rfl, rfl, rfl⟩
          · simp only [List.cons_append, List.nil_append, List.cons.injEq] at h
            obtain ⟨rfl, rfl, rfl⟩ := h
            exact .inr ⟨mid, rfl, rfl⟩

/-- A start tag ends the innermost element. -/
theorem endsInnermost_before {top : OpenTag} {tag : StartTag} {unary : Bool}
    (htracks : Tracks front (top :: outer) opens) (hmid : startCount mid = 0) (rest : List Event) :
    EndsInnermost source (front ++ [.warned ⟨.implicitlyClosed top.name tag.name, tag.span⟩])
      top.name (.empty tag.span.start) (mid ++ .opened tag unary :: rest) := by
  rcases (htracks.warned ⟨.implicitlyClosed top.name tag.name, tag.span⟩).innermost with
    ⟨n, start, around, rfl, rfl, _, henclosing⟩
  exact ⟨n, start, around, .implicit, henclosing, rfl, .implicit rfl rfl hmid⟩

theorem endsInnermost_startTag {tag : StartTag} {stop : Cursor}
    (htracks : Tracks front opened opens)
    (hsplit : (openTag tag stop opened).1 = mid ++ .closed name span :: tail)
    (later : List Event) : EndsInnermost source (front ++ mid) name span (tail ++ later) := by
  have hevents : (closeBefore tag (endsParagraph tag) opened).1 ++
      ((closeBefore tag (endsSibling tag) (closeBefore tag (endsParagraph tag) opened).2).1 ++
        [.opened tag (isUnary tag)]) = mid ++ .closed name span :: tail := by
    rw [← List.append_assoc]
    exact hsplit
  rcases closes_closeBefore tag (endsParagraph tag) opened with ⟨first, hopened, hfirst⟩
  rcases closeBefore_split hevents with ⟨top, outer, rfl, rfl, rfl, rfl, rfl⟩ | ⟨mid', rfl, hmore⟩
  · -- The first check: the second one may end another element before the start event.
    rcases closes_closeBefore tag (endsSibling tag)
      (closeBefore tag (endsParagraph tag) (top :: outer)).2 with ⟨_, _, hsecond⟩
    rw [List.append_assoc]
    exact endsInnermost_before htracks hsecond.startCount_eq later
  · rcases closeBefore_split hmore with ⟨top, outer, hleft, rfl, rfl, rfl, rfl⟩ | ⟨mid'', _, hlast⟩
    · rw [hopened] at htracks
      rcases htracks.closes hfirst with ⟨_, _, _, _, hbehind⟩
      rw [hleft] at hbehind
      rw [← List.append_assoc]
      show EndsInnermost source _ _ _ ([] ++ .opened tag (isUnary tag) :: later)
      exact endsInnermost_before hbehind rfl later
    · -- The last event is the start event.
      have hmem : .closed name span ∈ [Event.opened tag (isUnary tag)] := by simp [hlast]
      simp at hmem

/-! ## The whole source -/

/-- One step. -/
theorem Step.endsInnermost (h : Step t (mid ++ .closed name span :: tail) next)
    (hplace : t.cursor.At source) (hinner : RawInnermost t.opened)
    (htracks : Tracks front t.opened opens) (hquiet : Quiet front) (later : List Event) :
    EndsInnermost source (front ++ mid) name span (tail ++ later) := by
  generalize hsplit : mid ++ .closed name span :: tail = events at h
  have hmem : .closed name span ∈ events := by simp [← hsplit]
  cases h with
  | declaration _ _ => cases hmem
  | endTag hraw _ hend =>
      exact endsInnermost_endTag hplace hinner hraw hend htracks hquiet hsplit.symm later
  | startTag _ _ _ _ => exact endsInnermost_startTag htracks hsplit.symm later
  | text _ _ _ _ _ _ => simp at hmem
  | rawRest _ _ => exact absurd hmem (closed_not_mem_rawEvents _ _ _)
  | rawEnded hraw hend hstop hafter =>
      have hbody : t.cursor.rest = _ := (RawText.end?_eq_some hend).1
      rw [List.append_assoc] at hbody
      subst hstop hafter
      exact endsInnermost_rawEnded (hplace.takes (Cursor.takes_advance hbody)) hraw hend
        (Cursor.takes_advance rfl) htracks hquiet hsplit.symm later

/-- One step, or the end of a reading. -/
theorem Portion.endsInnermost (h : Portion t (mid ++ .closed name span :: tail))
    (hplace : t.cursor.At source) (hinner : RawInnermost t.opened)
    (htracks : Tracks front t.opened opens) (hquiet : Quiet front) (later : List Event) :
    EndsInnermost source (front ++ mid) name span (tail ++ later) := by
  generalize hsplit : mid ++ .closed name span :: tail = events at h
  have hsize := hplace.offset_add
  cases h with
  | step hrest hstep =>
      rw [← hsplit] at hstep
      exact hstep.endsInnermost hplace hinner htracks hquiet later
  | done hrest =>
      rw [hrest, Text.byteLength_nil, Nat.add_zero] at hsize
      rw [hsize] at hsplit
      exact endsInnermost_closeRest htracks hsplit.symm later
  | malformed _ _ =>
      simp only [Scanner.malformed, Cursor.advance, hsize] at hsplit
      -- The two events in front end nothing.
      rcases mid with _ | ⟨event, _ | ⟨event', mid⟩⟩
      · simp at hsplit
      · simp at hsplit
      · simp only [List.cons_append, List.nil_append, List.cons.injEq] at hsplit
        obtain ⟨htext, hwarned, hrest⟩ := hsplit
        have hpair : Balanced [event, event'] := by
          rw [htext, hwarned]
          exact .text (.warned .nil)
        simpa using endsInnermost_closeRest (htracks.append hpair) hrest.symm later

end Scanner

open Event Scanner

/-- Every end event of a source ends the innermost element that is open there, in exactly one of
three ways: with an end tag of its own and no warning in front of it, announced by the warning of
the start tag that ends it, or announced by the warning of a missing end tag. These warnings stand
nowhere else than in front of end events, so every element is ended by an end tag of its own or has
one such warning.

An end tag of its own is for raw text what the content is found to end with; its name need not end
where that of the element does. -/
theorem scan_endings (source : String) :
    (∀ before name span after, scan source = before ++ .closed name span :: after →
      ∃ n tag opens, Enclosing before ((n, tag) :: opens) ∧ tag.name = name ∧
        ∃! kind, Ends source before tag opens after span kind) ∧
    (∀ before event after, scan source = before ++ event :: after → event.announces ≠ .own →
      ∃ name span rest, after = .closed name span :: rest) ∧
    (scan source).countP isElement =
      ownCloses .own (scan source) + (scan source).countP (·.announces = .implicit) +
        (scan source).countP (·.announces = .missing) := by
  have hpaired : Paired (scan source) := (reads_scan source).paired
  refine ⟨?_, ?_, ?_⟩
  · intro before name span after hscan
    rcases (reads_scan source).locate hscan with
      ⟨front, t, mid, tail, later, hleads, hportion, rfl, rfl⟩
    rcases hleads.enclosing (tracks_ofText source) with ⟨around, htracks⟩
    have hinner : RawInnermost t.opened := by
      refine hleads.rawInnermost fun tag htag => ?_
      cases htag
    rcases hportion.endsInnermost (hleads.place (Cursor.at_ofText source)) hinner htracks
      hleads.quiet later with ⟨n, tag, opens, kind, henclosing, hname, hends⟩
    refine ⟨n, tag, opens, henclosing, hname, kind, hends, ?_⟩
    intro other hother
    calc
      other = announced (front ++ mid) := hother.kind_eq
      _ = kind := hends.kind_eq.symm
  · intro before event after hscan hevent
    rw [hscan] at hpaired
    exact hpaired.closed_behind hevent
  · have hbalanced : Balanced (scan source) := balanced_of_replay? (reads_scan source).replay
    calc
      (scan source).countP isElement = (scan source).countP isEnd := hbalanced.countP_isElement
      _ = _ := hpaired.countP_isEnd

/-- The end of raw text need not name its element: the style sheet ends without a warning at an end
tag of another name, and its own end tag ends nothing. -/
theorem scan_ending_other_name :
    scan "<style>a</styled>b</style>" =
        [.opened ⟨"style", [], false, ⟨0, 7⟩⟩ false, .text "a" ⟨7, 8⟩, .closed "style" ⟨8, 17⟩,
          .text "b" ⟨17, 18⟩] ∧
      Span.slice? ⟨8, 17⟩ "<style>a</styled>b</style>" = some "</styled>" ∧
      EndTag.read? (.ofText "</styled>") = some (⟨"styled", ⟨0, 9⟩⟩, ⟨9, []⟩) ∧
      Tag.sameName "style" "styled" = false := by
  decide +kernel

end TemplateMarkup
