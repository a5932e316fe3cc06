import TemplateMarkup.Proofs.Scan.Places
import TemplateMarkup.Proofs.Template.Outline

/-!
# The spans of a template

A template and its warnings have all their spans from the events they are assembled from: they are
copied, or joined when an element is closed. So a property that all spans of the events have, and
that joining keeps, belongs to all spans of the template:

* `Element.Within P e`, `Assembly.Within P a` — all spans have the property `P`,
* `Assembly.Within.feed` — every event keeps it so,
* `parse_within` — all spans of a parsed template are in its source.
-/

namespace TemplateMarkup

/-- The span of a text. -/
def Node.textSpan? : Node → Option Span
  | .element _ => none
  | .expression _ _ span => some span
  | .text _ span => some span

namespace Element

variable {P : Span → Prop} {e e' : Element}

/-- All spans of an element have the property. -/
structure Within (P : Span → Prop) (e : Element) : Prop where
  span : P e.span
  attributes : ∀ a ∈ e.attributes, P a.span
  text : ∀ n ∈ e.children.toList, ∀ span, n.textSpan? = some span → P span

/-- Children may go, and the rest may change but for the spans. -/
theorem Within.of_subset (h : e.Within P) (hspan : P e'.span)
    (hattributes : e'.attributes = e.attributes)
    (hchildren : e'.children.toList ⊆ e.children.toList) : e'.Within P where
  span := hspan
  attributes := by
    rw [hattributes]
    exact h.attributes
  text := by
    intro n hn
    exact h.text n (hchildren hn)

theorem Within.withChild (h : e.Within P) {n : Node}
    (hn : ∀ span, n.textSpan? = some span → P span) : (Assembly.withChild n e).Within P where
  span := h.span
  attributes := h.attributes
  text := by
    intro m hm
    simp only [Assembly.withChild, Array.toList_push, List.mem_append, List.mem_singleton] at hm
    rcases hm with hm | rfl
    · exact h.text m hm
    · exact hn

end Element

/-! ## Changing a template -/

namespace Template

variable {P : Span → Prop} {t : Template} {p : ElementId} {f : Element → Element}

def Within (P : Span → Prop) (t : Template) : Prop :=
  ∀ (id : ElementId) (e : Element), t.elements[id]? = some e → e.Within P

theorem Within.modify (h : t.Within P)
    (hf : ∀ e, t.elements[p]? = some e → e.Within P → (f e).Within P) :
    (t.modify p f).Within P := by
  intro id e he
  rw [getElem?_modify] at he
  split at he
  · next hp =>
      rcases Option.map_eq_some_iff.1 he with ⟨old, hold, rfl⟩
      subst hp
      exact hf old hold (h _ old hold)
  · exact h id e he

theorem Within.push {e : Element} (h : t.Within P) (he : e.Within P) : (t.push e).Within P := by
  intro id e' he'
  rw [Template.push, Array.getElem?_push] at he'
  split at he'
  · cases he'
    exact he
  · exact h id e' he'

end Template

/-! ## Assembling -/

namespace Assembly

variable {P : Span → Prop} {a b : Assembly} {id parent : ElementId} {e : Element}
  {options : Options} {size : Nat}

/-- All spans of an assembly have the property. -/
structure Within (P : Span → Prop) (a : Assembly) : Prop where
  template : a.template.Within P
  warning : ∀ w ∈ a.warnings.toList, P w.span

theorem within_empty : Within P {} where
  template := by
    intro id e he
    simp at he
  warning := by simp

/-- Neither the root nor what is open has a span. -/
theorem Within.of_eq (h : a.Within P) (helements : b.template.elements = a.template.elements)
    (hwarnings : b.warnings = a.warnings) : b.Within P where
  template := by
    intro id e he
    rw [helements] at he
    exact h.template id e he
  warning := by
    rw [hwarnings]
    exact h.warning

theorem Within.warn (h : a.Within P) (kind : Warning.Kind) {span : Span} (hspan : P span) :
    (a.warn kind span).Within P where
  template := h.template
  warning := by
    intro w hw
    simp only [Assembly.warn, Array.toList_push, List.mem_append, List.mem_singleton] at hw
    rcases hw with hw | rfl
    · exact h.warning w hw
    · exact hspan

theorem Within.modify (h : a.Within P) {f : Element → Element}
    (hf : ∀ e, a.template.elements[id]? = some e → e.Within P → (f e).Within P) :
    (a.modify id f).Within P :=
  ⟨h.template.modify hf, h.warning⟩

theorem Within.warnUnstable (h : a.Within P) (he : P e.span) : (a.warnUnstable e).Within P := by
  unfold Assembly.warnUnstable
  split
  · exact h.warn _ he
  · split
    · exact h.warn _ he
    · exact h

theorem span_of_droppedText {n : Node} {w : Warning} (h : droppedText n = some w) :
    n.textSpan? = some w.span := by
  unfold droppedText at h
  split at h
  · cases h
  · cases h
    rfl
  · split at h
    · cases h
    · cases h
      rfl

/-- Text that is dropped is reported where it stood. -/
theorem Within.dropText (h : a.Within P) (parent : ElementId) : (a.dropText parent).Within P := by
  refine ⟨?_, ?_⟩
  · rw [dropText_template]
    refine h.template.modify fun e _ hwithin => ?_
    exact hwithin.of_subset hwithin.span rfl (children_withoutText_sublist e).subset
  · unfold Assembly.dropText
    split
    · exact h.warning
    · next p hp =>
        intro w hw
        rw [Array.toList_appendList, List.mem_append] at hw
        rcases hw with hw | hw
        · exact h.warning w hw
        · rcases List.mem_filterMap.1 hw with ⟨n, hn, hdropped⟩
          have hmem : n ∈ p.children.toList := by
            rw [List.mem_reverse, Array.toList_extract, List.extract_eq_take_drop] at hn
            exact List.mem_of_mem_drop (List.mem_of_mem_take hn)
          exact (h.template _ p hp).text n hmem _ (span_of_droppedText hdropped)

theorem Within.addBranch (h : a.Within P) (head id : ElementId) (e : Element) :
    (a.addBranch head id e).Within P :=
  h.modify fun _ _ hwithin => hwithin.of_subset hwithin.span rfl (List.Subset.refl _)

/-- A new element is linked with its own span. -/
theorem Links.within (h : Links a id e b) (ha : a.Within P) (he : P e.span) : b.Within P := by
  cases h with
  | root _ _ =>
      have hroot : Within P { a with template := { a.template with root := some id } } :=
        ha.of_eq rfl rfl
      refine Within.warnUnstable ?_ he
      split
      · exact hroot.warn _ he
      · exact hroot
  | rootBranch _ _ _ _ => exact (ha.warnUnstable he).addBranch _ _ _
  | rootOrphan _ _ _ _ => exact ha.warn _ he
  | secondRoot _ _ _ _ =>
      have hseveral : Within P { a with severalRoots := true } := ha.of_eq rfl rfl
      exact hseveral.warn _ he
  | laterRoot _ _ _ _ => exact ha
  | branch _ _ _ _ => exact (ha.dropText _).addBranch _ _ _
  | orphan _ _ _ => exact (ha.dropText _).warn _ he
  | slot _ _ _ =>
      exact ha.modify fun _ _ hwithin => hwithin.of_subset hwithin.span rfl (List.Subset.refl _)
  | child _ _ _ => exact ha.modify fun _ _ hwithin => hwithin.withChild (by simp [Node.textSpan?])

theorem openElement_within {tag : StartTag} {unary : Bool} (ha : a.Within P) (htag : P tag.span)
    (hattributes : ∀ x ∈ tag.attributes, P x.span)
    (h : a.openElement options tag unary = .ok b) : b.Within P := by
  rcases openElement_eq_ok h with ⟨e, warnings, linked, hread, hlinks, rfl⟩
  rcases Element.ofStartTag_skeleton hread with ⟨_, _, hskeleton⟩
  rcases Element.ofStartTag_spans hread with ⟨hsubset, hwarnings⟩
  have hspan : e.span = tag.span := congrArg Element.Skeleton.span hskeleton
  have hchildren : e.children = #[] := congrArg Element.Skeleton.children hskeleton
  have he : e.Within P := by
    refine ⟨hspan ▸ htag, fun x hx => hattributes x (hsubset hx), ?_⟩
    rw [hchildren]
    simp
  have hextend : (a.extend e warnings).Within P := by
    refine ⟨ha.template.push he, ?_⟩
    intro w hw
    rw [extend, Array.toList_appendList, List.mem_append] at hw
    rcases hw with hw | hw
    · exact ha.warning w hw
    · rcases hwarnings w hw with heq | ⟨x, hx, heq⟩
      · exact heq ▸ htag
      · exact heq ▸ hattributes x hx
  have hlinked := hlinks.within hextend he.span
  unfold enter
  split
  · exact hlinked
  · exact hlinked.of_eq rfl rfl

theorem addText_within {text : String} {span : Span} (hspan : P span) (he : e.Within P) :
    (addText options text span e).Within P := by
  have hpush : ∀ {n : Node}, n.textSpan? = some span → (withChild n e).Within P := by
    intro n hn
    refine he.withChild fun span' hspan' => ?_
    rw [hn] at hspan'
    cases hspan'
    exact hspan
  unfold addText
  split
  · split
    · exact he
    · exact hpush rfl
  · split
    · exact hpush rfl
    · exact hpush rfl

theorem readText_within {content : String} {span : Span} (ha : a.Within P) (hspan : P span) :
    (a.readText options size content span).Within P := by
  unfold readText
  split
  · unfold textOutside
    dsimp only
    split
    · exact ha
    · exact ha.warn _ hspan
  · split
    · exact ha
    · exact ha.modify fun _ _ hwithin => addText_within hspan hwithin

/-- Every event hands its spans on, joined at most. -/
theorem Within.feed {event : Event} (ha : a.Within P) (hevent : event.Within P)
    (hcover : ∀ {span span'}, P span → P span' → P (span.cover span'))
    (h : Assembly.feed options size a event = .ok b) : b.Within P := by
  cases event with
  | opened tag unary =>
      rw [feed_opened] at h
      exact openElement_within ha hevent.1 hevent.2 h
  | closed name span =>
      rw [feed_closed] at h
      cases h
      cases henclosing : a.enclosing with
      | nil =>
          rw [closeElement_of_nil henclosing]
          exact ha
      | cons id outer =>
          rw [closeElement_of_cons henclosing]
          have houter : Within P { a with enclosing := outer } := ha.of_eq rfl rfl
          refine houter.modify fun e _ hwithin => ?_
          exact hwithin.of_subset (hcover hwithin.span hevent) rfl
            (children_closedAt_sublist span e).subset
  | text content span =>
      rw [feed_text] at h
      cases h
      exact readText_within ha hevent
  | warned warning =>
      rw [feed_warned] at h
      cases h
      exact ha.warn _ hevent

theorem Within.run {events : List Event} (ha : a.Within P) (hevents : ∀ ev ∈ events, ev.Within P)
    (hcover : ∀ {span span'}, P span → P span' → P (span.cover span'))
    (h : events.foldlM (Assembly.feed options size) a = .ok b) : b.Within P :=
  foldlM_invariant_of_mem (P := Within P)
    (fun hevent hfeed hcurrent => hcurrent.feed (hevents _ hevent) hcover hfeed) h ha

theorem Within.finish (ha : a.Within P) (hall : P ⟨0, size⟩) : (a.finish size).Within P := by
  unfold Assembly.finish
  split
  · exact ha.warn _ hall
  · exact ha

end Assembly

variable {options : Options} {source : String} {parsed : Parsed}

/-- All spans of a parsed template, and of the warnings about it, are in its source. -/
theorem parse_within (h : parse options source = .ok parsed) :
    parsed.template.Within (Span.Placed source) ∧
      ∀ w ∈ parsed.warnings, w.span.Placed source := by
  rcases parse_eq_ok h with ⟨a, hrun, htemplate, hwarnings⟩
  have ha := Assembly.within_empty.run (within_scan source) Span.Placed.cover hrun
  rw [htemplate, hwarnings]
  exact ⟨ha.template, (ha.finish (Span.placed_all source)).warning⟩

end TemplateMarkup
