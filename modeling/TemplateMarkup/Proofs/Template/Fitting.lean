import Mathlib.Data.List.Chain
import TemplateMarkup.Proofs.Markup.Basic
import TemplateMarkup.Proofs.Scan.Starts
import TemplateMarkup.Proofs.Template.Outline

/-!
# Elements fit where they stand

A start tag ends at most two elements, one paragraph and one element of its own name. That is
enough, because no element that is open ever stands directly in one that its start tag would have
ended: `Scanner.Fitting opened` says that each open element fits in the one around it, and every
step keeps it (`Scanner.Step.fitting`). So each start event fits in what is open there
(`fits_of_scan`), and the elements of a template inherit it, since their parents are what is open at
their start events.
-/

namespace TemplateMarkup

open Markup (Fits)

/-! ## Stacks of open elements -/

namespace Scanner

variable {s next : Scanner} {events : List Event} {opened outer : List OpenTag} {tag : StartTag}

/-- Each open element fits in the one around it. -/
def Fitting (opened : List OpenTag) : Prop :=
  opened.IsChain fun inner around => Fits around.name inner.name

theorem Fitting.of_suffix (h : Fitting opened) (hsuffix : outer <:+ opened) : Fitting outer :=
  List.IsChain.suffix h hsuffix

/-- Names that differ in case only belong to the same categories. -/
theorem fits_congr {parent name name' : String} (h : Tag.sameName name name') :
    Fits parent name ↔ Fits parent name' := by
  have hlower : name.toLower = name'.toLower := by simpa [Tag.sameName] using h
  constructor
  · rintro ⟨hphrasing, hdistinct⟩
    exact ⟨by simpa [Tag.isNonPhrasing, hlower] using hphrasing,
      by simpa [Tag.canBeLeftOpen, Tag.sameName, hlower] using hdistinct⟩
  · rintro ⟨hphrasing, hdistinct⟩
    exact ⟨by simpa [Tag.isNonPhrasing, hlower] using hphrasing,
      by simpa [Tag.canBeLeftOpen, Tag.sameName, hlower] using hdistinct⟩

/-- A paragraph stands in no paragraph. -/
theorem Fitting.not_paragraph {inner around : OpenTag}
    (h : Fitting (inner :: around :: outer)) (hinner : inner.name.toLower = "p") :
    around.name.toLower ≠ "p" := by
  intro haround
  have hfits : Fits around.name inner.name := (List.isChain_cons_cons.1 h).1
  apply hfits.distinct
  simp [Tag.canBeLeftOpen, Tag.leftOpenTags, Tag.sameName, hinner, haround]

/-- Behind the first check, the innermost element is no paragraph that the tag would end. -/
theorem closeBefore_endsParagraph (h : Fitting opened) {top : OpenTag}
    (htop : (closeBefore tag (endsParagraph tag) opened).2 = top :: outer) :
    endsParagraph tag top = false := by
  cases opened with
  | nil => cases htop
  | cons first around =>
      by_cases hends : endsParagraph tag first = true
      · -- The paragraph is gone, and what it stood in is none.
        simp only [closeBefore, hends, if_true] at htop
        subst htop
        have hfirst : first.name.toLower = "p" := by
          simpa using (Bool.and_eq_true_iff.1 hends).1
        simp [endsParagraph, h.not_paragraph hfirst]
      · simp only [closeBefore, hends, Bool.false_eq_true, if_false] at htop
        cases htop
        simpa using hends

/-- Two checks are enough: the tag fits in the element that is innermost behind them. -/
theorem fits_remaining (h : Fitting opened) {top : OpenTag}
    (htop : remaining tag opened = top :: outer) : Fits top.name tag.name := by
  unfold remaining at htop
  rcases closes_closeBefore tag (endsParagraph tag) opened with ⟨closing, hsplit, _⟩
  have hfitting := h.of_suffix ⟨closing, hsplit.symm⟩
  cases hfirst : (closeBefore tag (endsParagraph tag) opened).2 with
  | nil =>
      rw [hfirst] at htop
      cases htop
  | cons first around =>
      rw [hfirst] at htop hfitting
      by_cases hends : endsSibling tag first = true
      · -- An element of the same name is gone. It fitted in `top`, and so does the new one.
        simp only [closeBefore, hends, if_true] at htop
        subst htop
        have hsame : Tag.sameName first.name tag.name := (Bool.and_eq_true_iff.1 hends).2
        exact (fits_congr hsame).1 (List.isChain_cons_cons.1 hfitting).1
      · simp only [closeBefore, hends, Bool.false_eq_true, if_false] at htop
        cases htop
        have hparagraph := closeBefore_endsParagraph h hfirst
        constructor
        · simpa [endsParagraph] using hparagraph
        · simpa [endsSibling] using hends

theorem openedBy_fitting (tag : StartTag) (h : Fitting opened) :
    Fitting (openedBy tag opened) := by
  rcases closes_openTag tag ⟨0, []⟩ opened with ⟨closing, _, hsplit, _⟩
  have hremaining : Fitting (remaining tag opened) := h.of_suffix ⟨closing, hsplit.symm⟩
  unfold openedBy
  split
  · exact hremaining
  · -- The new element is innermost now.
    cases htop : remaining tag opened with
    | nil => exact List.isChain_singleton _
    | cons top outer =>
        rw [htop] at hremaining
        exact List.isChain_cons_cons.2 ⟨fits_remaining h htop, hremaining⟩

theorem closeNamed_fitting (name : String) (span : Span) (h : Fitting opened) :
    Fitting (closeNamed name span opened).2 := by
  rcases closes_closeNamed name span opened with ⟨closing, hsplit, _⟩
  exact h.of_suffix ⟨closing, hsplit.symm⟩

theorem Step.fitting (h : Step s events next) (hs : Fitting s.opened) : Fitting next.opened := by
  cases h with
  | declaration _ _ => exact hs
  | endTag _ _ _ => exact closeNamed_fitting _ _ hs
  | startTag _ _ _ _ => exact openedBy_fitting _ hs
  | text _ _ _ _ _ _ => exact hs
  | rawRest _ _ => exact hs
  | rawEnded _ _ _ _ => exact closeNamed_fitting _ _ hs

end Scanner

/-! ## The elements of a template -/

variable {options : Options} {source : String} {parsed : Parsed}

/-- What is open at a start event has the names that a replay finds there. -/
theorem fits_of_scan {before after : List Event} {tag : StartTag} {unary : Bool}
    {opens : List Event.Numbered} (hscan : scan source = before ++ .opened tag unary :: after)
    (hopens : Event.Enclosing before opens) :
    ∀ outer, opens.head? = some outer → Fits outer.2.name tag.name := by
  intro outer houter
  have hempty : Scanner.Fitting (Scanner.ofText source).opened := List.isChain_nil
  rcases (reads_scan source).at_start (P := fun s => Scanner.Fitting s.opened)
    (fun hs hstep => hstep.fitting hs) hempty hscan with ⟨t, _, hfitting, _, _, hreplay, _⟩
  have hnames : opens.map (·.2.name) = Scanner.names (Scanner.remaining tag t.opened) :=
    Option.some.inj (hopens.replay?_eq.symm.trans hreplay)
  -- The innermost of them is what the start tag has left open.
  rcases List.head?_eq_some_iff.1 houter with ⟨around, rfl⟩
  cases htop : Scanner.remaining tag t.opened with
  | nil => simp [htop] at hnames
  | cons top below =>
      rw [htop] at hnames
      have hname : outer.2.name = top.name := (List.cons.inj hnames).1
      rw [hname]
      exact Scanner.fits_remaining hfitting htop

/-- The tag of the innermost element that is open at some place of the source. -/
theorem parse_tag_of_enclosing (h : parse options source = .ok parsed)
    {before after : List Event} {opens : List Event.Numbered} {outer : Event.Numbered}
    (hscan : scan source = before ++ after) (hopens : Event.Enclosing before opens)
    (houter : opens.head? = some outer) :
    ∃ e, parsed.template.elements[outer.1]? = some e ∧ e.tag = outer.2.name := by
  cases hopens with
  | outermost _ => cases houter
  | @inside around inner _ tag haround _ =>
      cases houter
      rw [List.append_assoc] at hscan
      rcases parse_matched h hscan haround with ⟨e, _, _, _, he, _, _, hheader⟩
      exact ⟨e, he, congrArg Header.tag hheader⟩

/-- The tag and the parent of the element of a start event. -/
theorem parse_start (h : parse options source = .ok parsed) {before after : List Event}
    {tag : StartTag} {unary : Bool} {opens : List Event.Numbered}
    (hscan : scan source = before ++ .opened tag unary :: after)
    (hopens : Event.Enclosing before opens) :
    ∃ e, parsed.template.elements[Event.startCount before]? = some e ∧ e.tag = tag.name ∧
      e.parent = opens.head?.map (·.1) := by
  cases unary with
  | true =>
      rcases parse_unary h hscan hopens with ⟨e, he, hheader⟩
      exact ⟨e, he, congrArg Header.tag hheader, congrArg Header.parent hheader⟩
  | false =>
      rcases parse_matched h hscan hopens with ⟨e, _, _, _, he, _, _, hheader⟩
      exact ⟨e, he, congrArg Header.tag hheader, congrArg Header.parent hheader⟩

theorem parse_fits (h : parse options source = .ok parsed) {id parent : ElementId}
    {e outer : Element} (he : parsed.template.elements[id]? = some e)
    (hparent : e.parent = some parent)
    (houter : parsed.template.elements[parent]? = some outer) : Fits outer.tag e.tag := by
  have hlt : id < Event.startCount (scan source) := by
    rw [← Outline.length_headers_ofEvents, ← parse_headers h, Template.length_headers]
    exact (Array.getElem?_eq_some_iff.1 he).1
  -- The element has a start event, and its parent is the innermost element open there.
  rcases Event.exists_start hlt with ⟨before, tag, unary, after, hscan, rfl⟩
  have hreplay := (reads_scan source).replay
  rw [hscan] at hreplay
  rcases Event.exists_enclosing hreplay with ⟨opens, hopens, _⟩
  rcases parse_start h hscan hopens with ⟨_, hsame, htag, hopened⟩
  rw [he] at hsame
  cases hsame
  rw [hparent] at hopened
  rcases Option.map_eq_some_iff.1 hopened.symm with ⟨around, haround, rfl⟩
  rcases parse_tag_of_enclosing h hscan hopens haround with ⟨_, hsame, houterTag⟩
  rw [houter] at hsame
  cases hsame
  rw [htag, houterTag]
  exact fits_of_scan hscan hopens around haround

/-- No start tag stands directly in an element that it ends: neither one that cannot stand in a
paragraph directly in a paragraph, nor one that can be left open directly in one of its name. This
is so for every start event of a source and what is open there, and for every element of a template
and its parent. -/
theorem start_fits (source : String) :
    (∀ before tag unary after opens,
      scan source = before ++ .opened tag unary :: after → Event.Enclosing before opens →
        ∀ outer, opens.head? = some outer → Fits outer.2.name tag.name) ∧
    ∀ options parsed, parse options source = .ok parsed →
      ∀ (id parent : ElementId) (e outer : Element),
        parsed.template.elements[id]? = some e → e.parent = some parent →
        parsed.template.elements[parent]? = some outer → Fits outer.tag e.tag := by
  constructor
  · intro before tag unary after opens hscan hopens
    exact fits_of_scan hscan hopens
  · intro options parsed h id parent e outer he hparent houter
    exact parse_fits h he hparent houter

/-- The second item ends a paragraph and the first item, and stands in the list. -/
theorem start_fits_second_item :
    ∃ parsed, parse {} "<ul><li><p>a<li>b</ul>" = .ok parsed ∧
      ∃ e outer, parsed.template.elements[3]? = some e ∧ e.tag = "li" ∧ e.parent = some 0 ∧
        parsed.template.elements[0]? = some outer ∧ outer.tag = "ul" ∧ Fits outer.tag e.tag := by
  have hheaders : ((parse {} "<ul><li><p>a<li>b</ul>").map fun parsed =>
      (parsed.template.elements[3]?.map Element.header,
        parsed.template.elements[0]?.map Element.header)).toOption =
      some (some ⟨"li", some 0, ⟨12, 22⟩⟩, some ⟨"ul", none, ⟨0, 22⟩⟩) := by
    decide +kernel
  cases h : parse {} "<ul><li><p>a<li>b</ul>" with
  | error error =>
      rw [h] at hheaders
      cases hheaders
  | ok parsed =>
      rw [h] at hheaders
      obtain ⟨hitem, hlist⟩ := Prod.mk.inj (Option.some.inj hheaders)
      rcases Option.map_eq_some_iff.1 hitem with ⟨e, he, heheader⟩
      rcases Option.map_eq_some_iff.1 hlist with ⟨outer, houter, houterheader⟩
      have hparent : e.parent = some 0 := congrArg Header.parent heheader
      exact ⟨parsed, rfl, e, outer, he, congrArg Header.tag heheader, hparent, houter,
        congrArg Header.tag houterheader,
        (start_fits _).2 {} parsed h 3 0 e outer he hparent houter⟩

end TemplateMarkup
