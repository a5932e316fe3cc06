import TemplateMarkup.Proofs.Scan.Closing
import TemplateMarkup.Proofs.Scan.Reading
import TemplateMarkup.Proofs.Template.Linking

/-!
# Warnings of an assembly

While a template is assembled, warnings are only ever added. This file tells where they come from:

* `isTagFault_scan` — a source as such only gives rise to warnings about its tags,
* `isDrop_scan`, `Element.ofStartTag_isDrop` — neither a source nor a start tag gives rise to the
  warnings about text that an else branch has dropped,
* `Assembly.Reports P a b` — from `a` to `b`, only warnings with the property `P` are added,
* `Assembly.cleared` — the step that drops text, taken alone,
* `Assembly.Links.reports` — no other step of linking reports text,
* `Assembly.feed_reports` — what has been reported stays reported.
-/

namespace TemplateMarkup

namespace Warning

variable {w : Warning}

/-- Whether a warning is about text that an else branch has dropped. -/
def isDrop (w : Warning) : Bool :=
  match w.kind with
  | .textBetweenBranches _ => true
  | _ => false

/-- Whether a warning is about how tags are written and closed. -/
def isTagFault (w : Warning) : Bool :=
  match w.kind with
  | .malformedTag _ => true
  | .missingEndTag _ => true
  | .implicitlyClosed _ _ => true
  | _ => false

theorem isDrop_of_isTagFault (h : w.isTagFault) : w.isDrop = false := by
  rcases w with ⟨kind, span⟩
  cases kind with
  | textBetweenBranches text => cases h
  | _ => rfl

end Warning

/-! ## Warnings of a source -/

/-- Whether an event is a warning about dropped text. -/
def Event.isDrop : Event → Bool
  | .warned w => w.isDrop
  | _ => false

namespace Scanner

variable {s next : Scanner} {events : List Event} {w : Warning} {span : Span}
  {opened : List OpenTag}

theorem kind_of_mem_closeMissing (h : .warned w ∈ opened.flatMap (closeMissing span)) :
    ∃ tag ∈ opened, w.kind = .missingEndTag tag.name := by
  rcases List.mem_flatMap.1 h with ⟨tag, htag, hmem⟩
  simp only [closeMissing, List.mem_cons, Event.warned.injEq, List.not_mem_nil, or_false,
    reduceCtorEq] at hmem
  exact ⟨tag, htag, by rw [hmem]⟩

theorem kind_of_mem_closeNamed {name : String} (h : .warned w ∈ (closeNamed name span opened).1) :
    ∃ tag ∈ opened, w.kind = .missingEndTag tag.name := by
  rcases exists_innermost name opened with hnone | ⟨inner, target, outer, rfl, hinner, htarget⟩
  · rw [closeNamed_of_none hnone] at h
    cases h
  · rw [closeNamed_of_innermost hinner htarget, List.mem_append, List.mem_singleton] at h
    rcases h with hmem | hclosed
    · rcases kind_of_mem_closeMissing hmem with ⟨tag, htag, hkind⟩
      exact ⟨tag, List.mem_append_left _ htag, hkind⟩
    · cases hclosed

theorem kind_of_mem_closeBefore {tag : StartTag} {ends : OpenTag → Bool}
    (h : .warned w ∈ (closeBefore tag ends opened).1) :
    ∃ around ∈ opened, w.kind = .implicitlyClosed around.name tag.name := by
  unfold closeBefore at h
  split at h
  · cases h
  · next around outer =>
      split at h
      · simp only [List.mem_cons, Event.warned.injEq, List.not_mem_nil, or_false,
          reduceCtorEq] at h
        exact ⟨around, List.mem_cons_self, by rw [h]⟩
      · cases h

theorem kind_of_mem_openTag {tag : StartTag} {after : Cursor}
    (h : .warned w ∈ (openTag tag after opened).1) :
    ∃ around ∈ opened, w.kind = .implicitlyClosed around.name tag.name := by
  simp only [openTag, List.mem_append, List.mem_singleton] at h
  rcases h with (h | h) | hopened
  · exact kind_of_mem_closeBefore h
  · rcases closes_closeBefore tag (endsParagraph tag) opened with ⟨closing, hsplit, _⟩
    rcases kind_of_mem_closeBefore h with ⟨around, haround, hkind⟩
    exact ⟨around, hsplit ▸ List.mem_append_right closing haround, hkind⟩
  · cases hopened

theorem warned_not_mem_rawEvents (name : String) (body : List Char) (span : Span) (w : Warning) :
    .warned w ∉ rawEvents name body span := by
  unfold rawEvents
  split
  · simp
  · simp

/-- A step gives rise to warnings about the elements that it closes, and to no others. -/
theorem Step.kind_cases (h : Step s events next) (hw : .warned w ∈ events) :
    (∃ tag ∈ s.opened, w.kind = .missingEndTag tag.name) ∨
      ∃ tag ∈ s.opened, ∃ closer stop, StartTag.read? s.cursor = some (closer, stop) ∧
        w.kind = .implicitlyClosed tag.name closer.name := by
  cases h with
  | declaration _ _ => cases hw
  | endTag _ _ _ => exact .inl (kind_of_mem_closeNamed hw)
  | startTag _ _ _ hstart =>
      rcases kind_of_mem_openTag hw with ⟨tag, htag, hkind⟩
      exact .inr ⟨tag, htag, _, _, hstart, hkind⟩
  | text _ _ _ _ _ _ => cases List.mem_singleton.1 hw
  | rawRest _ _ => exact absurd hw (warned_not_mem_rawEvents _ _ _ w)
  | rawEnded _ _ _ _ =>
      rcases List.mem_append.1 hw with hraw | hclosed
      · exact absurd hraw (warned_not_mem_rawEvents _ _ _ w)
      · exact .inl (kind_of_mem_closeNamed hclosed)

/-- Where nothing can be read, the warnings are about the rest and about what is open. -/
theorem kind_of_mem_malformed {c : Cursor}
    (h : .warned w ∈ malformed c ++ opened.flatMap (closeMissing span)) :
    w.kind = .malformedTag (fragment c.rest) ∨ ∃ tag ∈ opened, w.kind = .missingEndTag tag.name := by
  rcases List.mem_append.1 h with hmem | hmem
  · simp only [malformed, List.mem_cons, Event.warned.injEq, List.not_mem_nil, or_false,
      reduceCtorEq, false_or] at hmem
    exact .inl (by rw [hmem])
  · exact .inr (kind_of_mem_closeMissing hmem)

theorem Reads.isTagFault (h : Reads s events) (hw : .warned w ∈ events) : w.isTagFault := by
  induction h with
  | done _ =>
      rcases kind_of_mem_closeMissing hw with ⟨_, _, hkind⟩
      rw [Warning.isTagFault, hkind]
  | step _ hstep _ ih =>
      rcases List.mem_append.1 hw with hmem | hmem
      · rcases hstep.kind_cases hmem with ⟨_, _, hkind⟩ | ⟨_, _, _, _, _, hkind⟩
        · rw [Warning.isTagFault, hkind]
        · rw [Warning.isTagFault, hkind]
      · exact ih hmem
  | malformed _ _ =>
      rcases kind_of_mem_malformed hw with hkind | ⟨_, _, hkind⟩
      · rw [Warning.isTagFault, hkind]
      · rw [Warning.isTagFault, hkind]

end Scanner

/-- A source as such only gives rise to warnings about its tags. -/
theorem isTagFault_scan {source : String} {w : Warning} (h : .warned w ∈ scan source) :
    w.isTagFault :=
  (reads_scan source).isTagFault h

theorem isDrop_scan (source : String) : ∀ event ∈ scan source, event.isDrop = false := by
  intro event hevent
  cases event with
  | warned w => exact Warning.isDrop_of_isTagFault (isTagFault_scan hevent)
  | opened tag unary => rfl
  | closed name span => rfl
  | text content span => rfl

/-! ## Warnings of a start tag -/

namespace Element

variable {e : Element} {w : Warning}

theorem kind_of_mem_readLoop (h : w ∈ (e.readLoop).2) :
    ∃ header, (e.claim "v-for").1 = some header ∧ w.kind = .invalidLoop header := by
  rcases hclaim : e.claim "v-for" with ⟨value, claimed⟩
  simp only [readLoop, hclaim] at h
  split at h
  · cases h
  · next header hvalue =>
      split at h
      · cases h
      · rw [List.mem_singleton.1 h]
        exact ⟨header, (Option.filter_eq_some_iff.1 hvalue).1, rfl⟩

theorem kind_of_mem_readKey (h : w ∈ (e.readKey).2) : w.kind = .keyedTemplate := by
  simp only [readKey] at h
  split at h
  · cases h
  · split at h
    · rw [List.mem_singleton.1 h]
    · cases h

theorem kind_of_mem_handlerWarnings {modifiers : List String}
    (h : w ∈ e.handlerWarnings modifiers) : w.kind = .passiveWithPrevent := by
  unfold handlerWarnings at h
  split at h
  · rw [List.mem_singleton.1 h]
  · cases h

theorem kind_of_mem_modelWarnings {t : Template} (h : w ∈ e.modelWarnings t) :
    ∃ a ∈ e.attributes, w.kind = .modelOnLoopItem e.tag a.value := by
  unfold modelWarnings at h
  split at h
  · cases h
  · next models hmodels =>
      rcases List.mem_filterMap.1 h with ⟨a, ha, hwarning⟩
      split at hwarning
      · cases hwarning
        exact ⟨a, (List.mem_filter.1 ha).1, rfl⟩
      · cases hwarning

theorem kind_of_mem_attributeWarnings {options : Options} {a : Attribute}
    (h : w ∈ e.attributeWarnings options a) :
    w.kind = .interpolationInAttribute a.name a.value ∨ w.kind = .passiveWithPrevent := by
  unfold attributeWarnings at h
  split at h
  · split at h
    · rw [List.mem_singleton.1 h]
      exact .inl rfl
    · cases h
  · exact .inr (kind_of_mem_handlerWarnings h)
  · cases h

theorem ofStartTag_isDrop {options : Options} {t : Template} {id : ElementId}
    {parent : Option ElementId} {tag : StartTag} {warnings : List Warning}
    (h : ofStartTag options t id parent tag = .ok (e, warnings)) :
    ∀ w ∈ warnings, w.isDrop = false := by
  rcases ofStartTag_eq_ok h with
    ⟨looped, keyed, ready, loopWarnings, keyWarnings, hloop, hkey, rfl, hread, rfl⟩
  intro w hw
  simp only [List.mem_append, List.mem_flatMap] at hw
  rcases hw with ((hw | hw) | ⟨a, _, hw⟩) | hw
  · have hw' : w ∈ ((unread tag parent).readLoop).2 := by rw [hloop]; exact hw
    rcases kind_of_mem_readLoop hw' with ⟨header, _, hkind⟩
    rw [Warning.isDrop, hkind]
  · have hw' : w ∈ (((looped.readCondition id).readOnce).readKey).2 := by rw [hkey]; exact hw
    rw [Warning.isDrop, kind_of_mem_readKey hw']
  · rcases kind_of_mem_attributeWarnings hw with hkind | hkind
    · rw [Warning.isDrop, hkind]
    · rw [Warning.isDrop, hkind]
  · rcases kind_of_mem_modelWarnings hw with ⟨_, _, hkind⟩
    rw [Warning.isDrop, hkind]

end Element

/-! ## Added warnings -/

namespace Assembly

variable {P Q : Warning → Prop} {a b c : Assembly} {id : ElementId} {e : Element}
  {options : Options} {size : Nat}

/-- The warnings of `b` are those of `a`, and behind them some with the property `P`. -/
def Reports (P : Warning → Prop) (a b : Assembly) : Prop :=
  ∃ more, b.warnings.toList = a.warnings.toList ++ more ∧ ∀ w ∈ more, P w

theorem reports_of_eq (h : b.warnings = a.warnings) : Reports P a b :=
  ⟨[], by simp [h], by simp⟩

theorem Reports.trans (h : Reports P a b) (h' : Reports P b c) : Reports P a c := by
  rcases h with ⟨more, hmore, hall⟩
  rcases h' with ⟨more', hmore', hall'⟩
  refine ⟨more ++ more', by rw [hmore', hmore, List.append_assoc], fun w hw => ?_⟩
  rcases List.mem_append.1 hw with hw | hw
  · exact hall w hw
  · exact hall' w hw

theorem Reports.mono (h : Reports P a b) (hPQ : ∀ w, P w → Q w) : Reports Q a b := by
  rcases h with ⟨more, hmore, hall⟩
  exact ⟨more, hmore, fun w hw => hPQ w (hall w hw)⟩

theorem Reports.mem (h : Reports P a b) {w : Warning} (hw : w ∈ a.warnings.toList) :
    w ∈ b.warnings.toList := by
  rcases h with ⟨more, hmore, _⟩
  rw [hmore]
  exact List.mem_append_left _ hw

/-- Without warnings in the end there have been none before. -/
theorem Reports.eq_empty (h : Reports P a b) (hb : b.warnings = #[]) : a.warnings = #[] := by
  rcases h with ⟨more, hmore, _⟩
  rw [hb] at hmore
  have hnil := (List.append_eq_nil_iff.1 hmore.symm).1
  exact Array.toList_eq_nil_iff.1 hnil

theorem reports_append {warnings : List Warning} (hwarnings : ∀ w ∈ warnings, P w)
    (h : b.warnings = a.warnings ++ warnings) : Reports P a b :=
  ⟨warnings, by rw [h, Array.toList_appendList], hwarnings⟩

theorem reports_warn {kind : Warning.Kind} {span : Span} (h : P ⟨kind, span⟩) :
    Reports P a (a.warn kind span) :=
  ⟨[⟨kind, span⟩], by simp [warn], by simpa using h⟩

/-! ## Linking -/

theorem reports_warnUnstable (a : Assembly) (e : Element) :
    Reports (·.isDrop = false) a (a.warnUnstable e) := by
  unfold warnUnstable
  split
  · exact reports_warn rfl
  · split
    · exact reports_warn rfl
    · exact reports_of_eq rfl

theorem reports_addRoot (a : Assembly) (id : ElementId) (e : Element) :
    Reports (·.isDrop = false) a (a.addRoot id e) := by
  refine Reports.trans ?_ (reports_warnUnstable _ e)
  split
  · exact reports_warn (a := { a with template := { a.template with root := some id } }) rfl
  · exact reports_of_eq rfl

theorem reports_dropText (a : Assembly) (p : ElementId) :
    Reports (fun _ => True) a (a.dropText p) := by
  unfold dropText
  split
  · exact reports_of_eq rfl
  · exact reports_append (fun _ _ => trivial) rfl

theorem warnings_dropText {p : ElementId} (hp : a.template.elements[p]? = some e) :
    (a.dropText p).warnings.toList = a.warnings.toList ++
      (e.children.toList.reverse.takeWhile Node.isText).filterMap droppedText := by
  have hchildren := children_eq_withoutText_append e
  generalize hrest : (e.children.toList.reverse.takeWhile Node.isText).reverse = rest at hchildren
  -- The children are `withoutText` and, behind them, what is dropped.
  have hdropped : (e.children.extract (withoutText e).children.size e.children.size).toList =
      rest := by
    have hsize := congrArg List.length hchildren
    rw [List.length_append, Array.length_toList, Array.length_toList] at hsize
    rw [Array.toList_extract, List.extract_eq_take_drop, hchildren, hsize,
      Nat.add_sub_cancel_left, ← Array.length_toList, List.drop_left, List.take_length]
  have hreverse : e.children.toList.reverse.takeWhile Node.isText = rest.reverse := by
    rw [← hrest, List.reverse_reverse]
  unfold dropText
  rw [hp]
  change (a.warnings ++ List.filterMap droppedText (e.children.extract
    (withoutText e).children.size e.children.size).toList.reverse).toList = _
  rw [Array.toList_appendList, hdropped, hreverse]

/-- The assembly in which the text in front of `e` has been dropped, if `e` is an else branch. -/
def cleared (a : Assembly) (e : Element) : Assembly :=
  match a.enclosing with
  | [] => a
  | parent :: _ => if e.directives.isBranch then a.dropText parent else a

theorem cleared_of_nil (h : a.enclosing = []) (e : Element) : a.cleared e = a := by
  unfold cleared
  rw [h]

theorem cleared_of_isBranch {outer : List ElementId} (h : a.enclosing = id :: outer)
    (hbranch : e.directives.isBranch) : a.cleared e = a.dropText id := by
  unfold cleared
  rw [h]
  exact if_pos hbranch

theorem cleared_of_not_isBranch (hbranch : ¬e.directives.isBranch) : a.cleared e = a := by
  unfold cleared
  split
  · rfl
  · exact if_neg hbranch

theorem reports_cleared (a : Assembly) (e : Element) :
    Reports (fun _ => True) a (a.cleared e) := by
  unfold cleared
  split
  · exact reports_of_eq rfl
  · split
    · exact reports_dropText _ _
    · exact reports_of_eq rfl

/-- Once the text in front of it is dropped, linking an element reports no dropped text. -/
theorem Links.reports (h : Links a id e b) : Reports (·.isDrop = false) (a.cleared e) b := by
  cases h with
  | root henclosing _ =>
      rw [cleared_of_nil henclosing]
      exact reports_addRoot a id e
  | rootBranch henclosing _ _ _ =>
      rw [cleared_of_nil henclosing]
      exact (reports_warnUnstable a e).trans (reports_of_eq rfl)
  | rootOrphan henclosing _ _ _ =>
      rw [cleared_of_nil henclosing]
      exact reports_warn rfl
  | secondRoot henclosing _ _ _ =>
      rw [cleared_of_nil henclosing]
      exact reports_warn (a := { a with severalRoots := true }) rfl
  | laterRoot henclosing _ _ _ =>
      rw [cleared_of_nil henclosing]
      exact reports_of_eq rfl
  | branch henclosing hbranch _ _ =>
      rw [cleared_of_isBranch henclosing hbranch]
      exact reports_of_eq rfl
  | orphan henclosing hbranch _ =>
      rw [cleared_of_isBranch henclosing hbranch]
      exact reports_warn rfl
  | slot _ hbranch _ =>
      rw [cleared_of_not_isBranch hbranch]
      exact reports_of_eq rfl
  | child _ hbranch _ =>
      rw [cleared_of_not_isBranch hbranch]
      exact reports_of_eq rfl

theorem severalRoots_warnUnstable (a : Assembly) (e : Element) :
    (a.warnUnstable e).severalRoots = a.severalRoots := by
  unfold warnUnstable
  split
  · rfl
  · split <;> rfl

theorem severalRoots_dropText (a : Assembly) (p : ElementId) :
    (a.dropText p).severalRoots = a.severalRoots := by
  unfold dropText
  split <;> rfl

/-- A second root is reported when it is first met. -/
theorem Links.severalRoots (h : Links a id e b) :
    b.severalRoots = a.severalRoots ∨ b.warnings ≠ #[] := by
  cases h with
  | root _ _ =>
      refine .inl ((severalRoots_warnUnstable _ e).trans ?_)
      split <;> rfl
  | rootBranch _ _ _ _ => exact .inl (severalRoots_warnUnstable a e)
  | rootOrphan _ _ _ _ => exact .inl rfl
  | secondRoot _ _ _ _ => exact .inr (by simp [warn])
  | laterRoot _ _ _ _ => exact .inl rfl
  | branch _ _ _ _ => exact .inl (severalRoots_dropText a _)
  | orphan _ _ _ => exact .inl (severalRoots_dropText a _)
  | slot _ _ _ => exact .inl rfl
  | child _ _ _ => exact .inl rfl

/-! ## Events -/

theorem reports_enter (a : Assembly) (unary : Bool) (id : ElementId) :
    Reports P a (a.enter unary id) := by
  unfold enter
  split
  · exact reports_of_eq rfl
  · exact reports_of_eq rfl

theorem reports_closeElement (a : Assembly) (span : Span) : Reports P a (a.closeElement span) := by
  unfold closeElement
  split
  · exact reports_of_eq rfl
  · exact reports_of_eq rfl

theorem reports_readText (options : Options) (size : Nat) (a : Assembly) (content : String)
    (span : Span) : Reports (·.isDrop = false) a (a.readText options size content span) := by
  unfold readText
  split
  · unfold textOutside
    dsimp only
    split
    · exact reports_of_eq rfl
    · exact reports_warn rfl
  · split
    · exact reports_of_eq rfl
    · exact reports_of_eq rfl

/-- What has been reported stays reported. -/
theorem feed_reports {event : Event} (h : feed options size a event = .ok b) :
    Reports (fun _ => True) a b := by
  cases event with
  | opened tag unary =>
      rw [feed_opened] at h
      rcases openElement_eq_ok h with ⟨e, warnings, linked, _, hlinks, rfl⟩
      have hextend : Reports (fun _ => True) a (a.extend e warnings) :=
        reports_append (fun _ _ => trivial) rfl
      have hlinked := hlinks.reports.mono (fun _ _ => trivial) (Q := fun _ => True)
      exact ((hextend.trans (reports_cleared _ e)).trans hlinked).trans (reports_enter _ _ _)
  | closed name span =>
      rw [feed_closed] at h
      cases h
      exact reports_closeElement a span
  | text content span =>
      rw [feed_text] at h
      cases h
      exact (reports_readText options size a content span).mono fun _ _ => trivial
  | warned warning =>
      rw [feed_warned] at h
      cases h
      exact ⟨[warning], by simp, fun _ _ => trivial⟩

theorem run_reports {events : List Event} (h : events.foldlM (feed options size) a = .ok b) :
    Reports (fun _ => True) a b :=
  foldlM_invariant (P := Reports (fun _ => True) a)
    (fun hfeed hcurrent => hcurrent.trans (feed_reports hfeed)) h (reports_of_eq rfl)

theorem reports_finish (size : Nat) (a : Assembly) :
    Reports (·.isDrop = false) a (a.finish size) := by
  unfold finish
  split
  · exact reports_warn rfl
  · exact reports_of_eq rfl

theorem feed_severalRoots {event : Event} (h : feed options size a event = .ok b) :
    b.severalRoots = a.severalRoots ∨ b.warnings ≠ #[] := by
  cases event with
  | opened tag unary =>
      rw [feed_opened] at h
      rcases openElement_eq_ok h with ⟨e, warnings, linked, _, hlinks, rfl⟩
      have hlinked := hlinks.severalRoots
      unfold enter
      split
      · exact hlinked
      · exact hlinked
  | closed name span =>
      rw [feed_closed] at h
      cases h
      refine .inl ?_
      unfold closeElement
      split <;> rfl
  | text content span =>
      rw [feed_text] at h
      cases h
      refine .inl ?_
      unfold readText
      split
      · unfold textOutside
        dsimp only
        split <;> rfl
      · split <;> rfl
  | warned warning =>
      rw [feed_warned] at h
      cases h
      exact .inl rfl

end Assembly
end TemplateMarkup
