import TemplateMarkup.Proofs.Template.Spans
import TemplateMarkup.Proofs.Template.Tree

/-!
# The layout of a template

In the source of a template, elements are nested like in the tree, and the children of an element
follow each other:

* `Outline.Precedes o n m` — the node `n` is closed in front of the node `m`,
* `Assembly.feed_children` — what an event can do to the children of an element,
* `Assembly.Arranged` — what holds of an assembly between any two events,
* `parse_spans` — every parsed template is laid out like this in its source.
-/

namespace TemplateMarkup

/-! ## The order of nodes -/

namespace Outline

open Event

variable {o : Outline} {tags : List StartTag} {last span : Span} {event : Event}
  {events : List Event} {n m : Node}

/-- The span of a node. -/
def spanOf? (o : Outline) : Node → Option Span
  | .element id => o.headers[id]?.map (·.span)
  | n => n.textSpan?

theorem spanOf?_of_textSpan? (h : n.textSpan? = some span) : o.spanOf? n = some span := by
  cases n with
  | element id => cases h
  | expression parsed text textSpan => exact h
  | text content textSpan => exact h

/-- A node that is there: a text, or an element that has been opened. -/
def Known (o : Outline) (n : Node) : Prop :=
  ∀ id, n = .element id → id < o.headers.length

/-- A node whose span is final: a text, or an element that has been closed. -/
def Closed (o : Outline) (n : Node) : Prop :=
  ∀ id, n = .element id → id ∉ o.enclosing

theorem Closed.step (h : o.Closed n) (hn : o.Known n) (event : Event) :
    (o.step event).Closed n := by
  intro id hid
  have hclosed := h id hid
  cases event with
  | opened tag unary =>
      rw [mem_enclosing_opened (hn id hid)]
      exact hclosed
  | closed name span =>
      cases henclosing : o.enclosing with
      | nil =>
          rw [step_closed_nil henclosing]
          exact hclosed
      | cons top outer =>
          rw [step_closed_cons henclosing]
          rw [henclosing] at hclosed
          exact fun hmem => hclosed (List.mem_cons_of_mem top hmem)
  | text content span => exact hclosed
  | warned warning => exact hclosed

/-- An event leaves the start of a node alone, and the rest of its span once it is closed. -/
theorem Laid.spanOf?_step (h : Laid tags last o) (htimeline : Timeline last (event :: events))
    (hn : o.Known n) (hspan : (o.step event).spanOf? n = some span) :
    ∃ old, o.spanOf? n = some old ∧ span.start = old.start ∧
      (o.Closed n → span.stop = old.stop) := by
  cases n with
  | expression parsed text textSpan => exact ⟨span, hspan, rfl, fun _ => rfl⟩
  | text content textSpan => exact ⟨span, hspan, rfl, fun _ => rfl⟩
  | element id =>
      rcases Option.map_eq_some_iff.1 hspan with ⟨header, hheader, rfl⟩
      cases event with
      | opened tag unary =>
          rcases getElem?_headers_opened hheader with ⟨_, hold⟩ | ⟨rfl, _⟩
          · exact ⟨header.span, by simp [spanOf?, hold], rfl, fun _ => rfl⟩
          · exact absurd (hn _ rfl) (Nat.lt_irrefl _)
      | closed name closedSpan =>
          rcases htimeline with ⟨hstart, hstop, _, _⟩
          cases henclosing : o.enclosing with
          | nil =>
              rw [step_closed_nil henclosing] at hheader
              exact ⟨header.span, by simp [spanOf?, hheader], rfl, fun _ => rfl⟩
          | cons top outer =>
              rcases h.getElem?_headers_closed henclosing hstart hstop hheader with
                ⟨old, hold, _, hfirst, hend⟩
              refine ⟨old.span, by simp [spanOf?, hold], hfirst, fun hclosed => ?_⟩
              -- The element that ends here has been open.
              rcases hend with ⟨rfl, _⟩ | ⟨_, hend⟩
              · exact absurd (by simp [henclosing]) (hclosed id rfl)
              · exact hend
      | text content textSpan =>
          exact ⟨header.span, hspan, rfl, fun _ => rfl⟩
      | warned warning =>
          exact ⟨header.span, hspan, rfl, fun _ => rfl⟩

/-- The first node is closed, and the second one starts behind it. -/
def Precedes (o : Outline) (n m : Node) : Prop :=
  o.Closed n ∧ ∀ span span', o.spanOf? n = some span → o.spanOf? m = some span' →
    span.start < span'.start ∧ span.stop ≤ span'.start

theorem Precedes.step (h : o.Precedes n m) (hlaid : Laid tags last o)
    (htimeline : Timeline last (event :: events)) (hn : o.Known n) (hm : o.Known m) :
    (o.step event).Precedes n m := by
  rcases h with ⟨hclosed, hbefore⟩
  refine ⟨hclosed.step hn event, fun span span' hspan hspan' => ?_⟩
  rcases hlaid.spanOf?_step htimeline hn hspan with ⟨old, hold, hstart, hstop⟩
  rcases hlaid.spanOf?_step htimeline hm hspan' with ⟨old', hold', hstart', _⟩
  rw [hstart, hstop hclosed, hstart']
  exact hbefore old old' hold hold'

end Outline

/-! ## Children -/

namespace Assembly

variable {a b : Assembly} {id : ElementId} {e : Element} {event : Event} {options : Options}
  {size : Nat}

/-- What the children of the element `id` can be behind an event. -/
inductive Children (a : Assembly) (event : Event) (id : ElementId) : List Node → Prop where
  | new : Children a event id []
  /-- Some may be taken off the end. -/
  | kept {old : Element} {kept : List Node} :
      a.template.elements[id]? = some old → kept.Sublist old.children.toList →
      Children a event id kept
  | element {old : Element} {outer : List ElementId} {tag : StartTag} {unary : Bool} :
      a.enclosing = id :: outer → a.template.elements[id]? = some old →
      event = .opened tag unary →
      Children a event id (old.children.toList ++ [.element a.template.elements.size])
  | text {old : Element} {outer : List ElementId} {content : String} {span : Span} {n : Node} :
      a.enclosing = id :: outer → a.template.elements[id]? = some old →
      event = .text content span → n.textSpan? = some span →
      Children a event id (old.children.toList ++ [n])

/-- A text among the children has been there before, or comes with the event. -/
theorem Children.text_cases {children : List Node} {n : Node} {span : Span}
    (h : Children a event id children) (hn : n ∈ children) (hspan : n.textSpan? = some span) :
    (∃ old, a.template.elements[id]? = some old ∧ n ∈ old.children.toList) ∨
      ∃ outer content, a.enclosing = id :: outer ∧ event = .text content span := by
  cases h with
  | new => cases hn
  | kept hold hsub => exact .inl ⟨_, hold, hsub.subset hn⟩
  | element _ hold _ =>
      rcases List.mem_append.1 hn with hn | hn
      · exact .inl ⟨_, hold, hn⟩
      · rw [List.mem_singleton.1 hn] at hspan
        cases hspan
  | text henclosing hold hevent hnew =>
      rcases List.mem_append.1 hn with hn | hn
      · exact .inl ⟨_, hold, hn⟩
      · rw [List.mem_singleton.1 hn, hnew] at hspan
        cases hspan
        exact .inr ⟨_, _, henclosing, hevent⟩

theorem children_self (h : a.template.elements[id]? = some e) :
    Children a event id e.children.toList :=
  .kept h (List.Sublist.refl _)

/-- An element of a changed template is an element of the old one, changed or not. -/
theorem getElem?_modify_cases {t : Template} {p : ElementId} {f : Element → Element}
    (h : (t.modify p f).elements[id]? = some e) :
    ∃ old, t.elements[id]? = some old ∧ (e = old ∨ (id = p ∧ e = f old)) := by
  rw [Template.getElem?_modify] at h
  split at h
  · next hp =>
      rcases Option.map_eq_some_iff.1 h with ⟨old, hold, rfl⟩
      exact ⟨old, hold, .inr ⟨hp.symm, rfl⟩⟩
  · exact ⟨e, h, .inl rfl⟩

theorem getElem?_modify_children {t : Template} {p : ElementId} {f : Element → Element}
    (hf : ∀ e, (f e).children = e.children) (h : (t.modify p f).elements[id]? = some e) :
    ∃ old, t.elements[id]? = some old ∧ e.children = old.children := by
  rcases getElem?_modify_cases h with ⟨old, hold, rfl | ⟨_, rfl⟩⟩
  · exact ⟨e, hold, rfl⟩
  · exact ⟨old, hold, hf old⟩

theorem getElem?_dropText {p : ElementId}
    (h : (a.dropText p).template.elements[id]? = some e) :
    ∃ old, a.template.elements[id]? = some old ∧
      (e.children = old.children ∨ (id = p ∧ e.children.toList <+: old.children.toList)) := by
  rw [dropText_template] at h
  rcases getElem?_modify_cases h with ⟨old, hold, rfl | ⟨hid, rfl⟩⟩
  · exact ⟨e, hold, .inl rfl⟩
  · exact ⟨old, hold, .inr ⟨hid, _, (children_eq_withoutText_append old).symm⟩⟩

/-- Linking takes text off the end of the children of the innermost element, adds the new element
to them, or leaves all children as they are. -/
theorem Links.children_cases {new e' : Element} {newId : ElementId} (h : Links a newId new b)
    (he : b.template.elements[id]? = some e') :
    ∃ old, a.template.elements[id]? = some old ∧
      (e'.children = old.children ∨
        ((∃ outer, a.enclosing = id :: outer) ∧
          (e'.children.toList <+: old.children.toList ∨
            e'.children.toList = old.children.toList ++ [.element newId]))) := by
  cases h with
  | root _ _ =>
      rw [addRoot_template] at he
      exact ⟨e', he, .inl rfl⟩
  | rootBranch _ _ _ _ =>
      rw [addBranch_template, warnUnstable_template] at he
      rcases getElem?_modify_children (f := withBranch _) (fun _ => rfl) he with ⟨old, hold, heq⟩
      exact ⟨old, hold, .inl heq⟩
  | rootOrphan _ _ _ _ => exact ⟨e', he, .inl rfl⟩
  | secondRoot _ _ _ _ => exact ⟨e', he, .inl rfl⟩
  | laterRoot _ _ _ _ => exact ⟨e', he, .inl rfl⟩
  | @branch parent head outer henclosing _ _ _ =>
      rw [addBranch_template] at he
      rcases getElem?_modify_children (f := withBranch _) (fun _ => rfl) he with
        ⟨dropped, hdropped, heq⟩
      rcases getElem?_dropText hdropped with ⟨old, hold, hsame | ⟨rfl, hshorter⟩⟩
      · exact ⟨old, hold, .inl (heq.trans hsame)⟩
      · exact ⟨old, hold, .inr ⟨⟨outer, henclosing⟩, .inl (heq ▸ hshorter)⟩⟩
  | @orphan parent outer henclosing _ _ =>
      rcases getElem?_dropText he with ⟨old, hold, hsame | ⟨rfl, hshorter⟩⟩
      · exact ⟨old, hold, .inl hsame⟩
      · exact ⟨old, hold, .inr ⟨⟨outer, henclosing⟩, .inl hshorter⟩⟩
  | slot _ _ _ =>
      rw [addSlot_template] at he
      rcases getElem?_modify_children (f := withSlot _ _) (fun _ => rfl) he with ⟨old, hold, heq⟩
      exact ⟨old, hold, .inl heq⟩
  | @child parent outer henclosing _ _ =>
      rw [addChild_template] at he
      rcases getElem?_modify_cases he with ⟨old, hold, rfl | ⟨rfl, rfl⟩⟩
      · exact ⟨e', hold, .inl rfl⟩
      · exact ⟨old, hold, .inr ⟨⟨outer, henclosing⟩, .inr (by simp [withChild])⟩⟩

theorem Links.children {new e' : Element} {newId : ElementId} (h : Links a newId new b)
    (he : b.template.elements[id]? = some e') :
    ∃ old, a.template.elements[id]? = some old ∧
      (e'.children.toList.Sublist old.children.toList ∨
        ((∃ outer, a.enclosing = id :: outer) ∧
          e'.children.toList = old.children.toList ++ [.element newId])) := by
  rcases h.children_cases he with ⟨old, hold, hsame | ⟨htop, hshorter | hchild⟩⟩
  · exact ⟨old, hold, .inl (hsame ▸ List.Sublist.refl _)⟩
  · exact ⟨old, hold, .inl hshorter.sublist⟩
  · exact ⟨old, hold, .inr ⟨htop, hchild⟩⟩

theorem openElement_children {tag : StartTag} {unary : Bool} (ha : a.outline.Ordered)
    (h : a.openElement options tag unary = .ok b) (he : b.template.elements[id]? = some e) :
    Children a (.opened tag unary) id e.children.toList := by
  rcases openElement_eq_ok h with ⟨new, warnings, linked, hread, hlinks, rfl⟩
  rcases Element.ofStartTag_skeleton hread with ⟨_, _, hskeleton⟩
  have hnew : new.children = #[] := congrArg Element.Skeleton.children hskeleton
  rw [enter_template] at he
  rcases hlinks.children he with ⟨old, hold, hchildren⟩
  rw [extend_template, Template.push, Array.getElem?_push] at hold
  split at hold
  · next hid =>
      cases hold
      rcases hchildren with hsub | ⟨⟨outer, henclosing⟩, _⟩
      · rw [hnew] at hsub
        rw [List.sublist_nil.1 hsub]
        exact .new
      · -- The new element is not open yet.
        have hlt : id < a.template.headers.length :=
          ha.enclosing_lt id (by simp [outline, show a.enclosing = id :: outer from henclosing])
        rw [Template.length_headers, hid] at hlt
        exact absurd hlt (Nat.lt_irrefl _)
  · rcases hchildren with hsub | ⟨⟨outer, henclosing⟩, heq⟩
    · exact .kept hold hsub
    · rw [heq]
      exact .element henclosing hold rfl

theorem addText_children (options : Options) (text : String) (span : Span) (e : Element) :
    (addText options text span e).children = e.children ∨
      ∃ n, n.textSpan? = some span ∧
        (addText options text span e).children.toList = e.children.toList ++ [n] := by
  unfold addText
  split
  · split
    · exact .inl rfl
    · exact .inr ⟨_, rfl, Array.toList_push⟩
  · split
    · exact .inr ⟨_, rfl, Array.toList_push⟩
    · exact .inr ⟨_, rfl, Array.toList_push⟩

/-- What an event does to the children of an element. -/
theorem feed_children (ha : a.outline.Ordered) (h : feed options size a event = .ok b)
    (he : b.template.elements[id]? = some e) : Children a event id e.children.toList := by
  cases event with
  | opened tag unary =>
      rw [feed_opened] at h
      exact openElement_children ha h he
  | closed name span =>
      rw [feed_closed] at h
      cases h
      cases henclosing : a.enclosing with
      | nil =>
          rw [closeElement_of_nil henclosing] at he
          exact children_self he
      | cons top outer =>
          rw [closeElement_of_cons henclosing] at he
          rcases getElem?_modify_cases he with ⟨old, hold, rfl | ⟨_, rfl⟩⟩
          · exact children_self hold
          · exact .kept hold (children_closedAt_sublist span old)
  | text content span =>
      rw [feed_text] at h
      cases h
      rcases readText_template options size a content span with hsame | ⟨parent, text, htop, htext⟩
      · rw [hsame] at he
        exact children_self he
      · rw [htext] at he
        rcases getElem?_modify_cases he with ⟨old, hold, rfl | ⟨rfl, rfl⟩⟩
        · exact children_self hold
        · rcases List.head?_eq_some_iff.1 htop with ⟨outer, henclosing⟩
          rcases addText_children options text span old with heq | ⟨n, hn, heq⟩
          · exact .kept hold (heq ▸ List.Sublist.refl _)
          · rw [heq]
            exact .text henclosing hold rfl hn
  | warned warning =>
      rw [feed_warned] at h
      cases h
      exact children_self he

/-! ## Assembling keeps the order -/

section Arranged

variable {tags : List StartTag} {last : Span} {events : List Event} {n : Node}

/-- What holds of an assembly behind an event with the span `last`, where `tags` are the start tags
so far. -/
structure Arranged (tags : List StartTag) (last : Span) (a : Assembly) : Prop where
  treelike : a.Treelike
  laid : a.outline.Laid tags last
  children : ∀ {id : ElementId} {e : Element}, a.template.elements[id]? = some e →
    e.children.toList.Pairwise a.outline.Precedes
  text : ∀ {id : ElementId} {e : Element}, a.template.elements[id]? = some e →
    ∀ n ∈ e.children.toList, ∀ span, n.textSpan? = some span →
      span.start < span.stop ∧ span.stop ≤ last.stop

theorem arranged_empty : Arranged [] (.empty 0) {} where
  treelike := treelike_empty
  laid := Outline.laid_nil
  children := by
    intro id e he
    simp at he
  text := by
    intro id e he
    simp at he

/-- An element that is a child has the element it is in as its parent. -/
theorem Arranged.parent_of_mem {child : ElementId} (h : Arranged tags last a)
    (he : a.template.elements[id]? = some e) (hn : .element child ∈ e.children.toList) :
    a.outline.parents[child]? = some (some id) := by
  have hinner : child ∈ a.template.innerAt id := by
    rw [Template.innerAt_of_getElem? he, Element.inner, Element.childIds_eq]
    exact List.mem_append_left _ (List.mem_filterMap.2 ⟨_, hn, rfl⟩)
  have hparent := h.treelike.linked.inner_parent hinner
  rw [Template.parentAt_eq] at hparent
  rw [Outline.parents, List.getElem?_map]
  exact hparent

theorem Arranged.known (h : Arranged tags last a) (he : a.template.elements[id]? = some e)
    (hn : n ∈ e.children.toList) : a.outline.Known n := by
  rintro child rfl
  have hparent := h.parent_of_mem he hn
  have hlt := (List.getElem?_eq_some_iff.1 hparent).1
  rwa [Outline.length_parents] at hlt

/-- What stands in the innermost element is closed. -/
theorem Arranged.closed_of_parent {outer : List ElementId} {child : ElementId}
    (h : Arranged tags last a) (henclosing : a.enclosing = id :: outer)
    (hparent : a.outline.parents[child]? = some (some id)) :
    a.outline.Closed (.element child) := by
  rintro _ ⟨rfl⟩ hmem
  have hchained := h.laid.chained
  have hstack : a.outline.enclosing = id :: outer := henclosing
  rw [hstack] at hmem hchained
  have hlt : id < child := h.laid.ordered.parents_lt hparent
  -- What is open is the parent itself, or around it.
  rcases List.mem_cons.1 hmem with heq | hmem
  · exact absurd (heq ▸ hlt) (Nat.lt_irrefl _)
  · have habove := (hchained.above hmem).lt h.laid.ordered
    exact absurd (Nat.lt_trans hlt habove) (Nat.lt_irrefl _)

/-- The children of the innermost element are closed. -/
theorem Arranged.closed_of_top {outer : List ElementId} (h : Arranged tags last a)
    (henclosing : a.enclosing = id :: outer) (he : a.template.elements[id]? = some e)
    (hn : n ∈ e.children.toList) : a.outline.Closed n := by
  rintro child rfl
  exact h.closed_of_parent henclosing (h.parent_of_mem he hn) child rfl

theorem Arranged.element_span_le {child : ElementId} {span : Span} (h : Arranged tags last a)
    (hspan : a.outline.spanOf? (.element child) = some span) :
    span.start < span.stop ∧ span.stop ≤ last.stop := by
  rcases Option.map_eq_some_iff.1 hspan with ⟨header, hheader, rfl⟩
  rcases h.laid.exists_tag hheader with ⟨tag, htag⟩
  rcases h.laid.extent hheader htag with ⟨hstart, hlt, hstop, _, hpast⟩
  exact ⟨by omega, hpast⟩

/-- What is there has a span, and that ends in the past. -/
theorem Arranged.span_le {span : Span} (h : Arranged tags last a)
    (he : a.template.elements[id]? = some e) (hn : n ∈ e.children.toList)
    (hspan : a.outline.spanOf? n = some span) :
    span.start < span.stop ∧ span.stop ≤ last.stop := by
  cases n with
  | expression parsed text textSpan => exact h.text he _ hn span hspan
  | text content textSpan => exact h.text he _ hn span hspan
  | element child => exact h.element_span_le hspan

/-- A node that starts behind the last event is behind all nodes that are closed. -/
theorem Arranged.precedes_later {m : Node} (h : Arranged tags last a)
    (htimeline : Event.Timeline last (event :: events)) (hknown : a.outline.Known n)
    (hclosed : a.outline.Closed n)
    (hpast : ∀ span, a.outline.spanOf? n = some span →
      span.start < span.stop ∧ span.stop ≤ last.stop)
    (hm : ∀ span, (a.outline.step event).spanOf? m = some span → last.stop ≤ span.start) :
    (a.outline.step event).Precedes n m := by
  refine ⟨hclosed.step hknown event, fun span span' hspan hspan' => ?_⟩
  rcases h.laid.spanOf?_step htimeline hknown hspan with ⟨old, hold, hstart, hstop⟩
  have hend := hstop hclosed
  have hnew := hm span' hspan'
  rcases hpast old hold with ⟨hlt, hle⟩
  omega

/-- A node that starts behind the last event is behind all children of the innermost element. -/
theorem Arranged.precedes_new {outer : List ElementId} {m : Node} (h : Arranged tags last a)
    (htimeline : Event.Timeline last (event :: events)) (henclosing : a.enclosing = id :: outer)
    (he : a.template.elements[id]? = some e) (hn : n ∈ e.children.toList)
    (hm : ∀ span, (a.outline.step event).spanOf? m = some span → last.stop ≤ span.start) :
    (a.outline.step event).Precedes n m :=
  h.precedes_later htimeline (h.known he hn) (h.closed_of_top henclosing he hn)
    (fun _ hspan => h.span_le he hn hspan) hm

/-- A new element is behind all children of the innermost element. -/
theorem Arranged.precedes_opened {outer : List ElementId} {tag : StartTag} {unary : Bool}
    (h : Arranged tags last a) (htimeline : Event.Timeline last (.opened tag unary :: events))
    (henclosing : a.enclosing = id :: outer) (he : a.template.elements[id]? = some e)
    (hn : n ∈ e.children.toList) :
    (a.outline.step (.opened tag unary)).Precedes n (.element a.template.elements.size) := by
  refine h.precedes_new htimeline henclosing he hn fun span hspan => ?_
  -- The new element has the span of its start tag.
  rcases Option.map_eq_some_iff.1 hspan with ⟨header, hheader, rfl⟩
  rcases Outline.getElem?_headers_opened hheader with ⟨hlt, _⟩ | ⟨_, rfl⟩
  · exact absurd hlt (by simp [outline])
  · exact htimeline.1

/-- Every event of a timeline keeps the children in order. -/
theorem Arranged.feed_children (h : Arranged tags last a)
    (htimeline : Event.Timeline last (event :: events))
    (hfeed : Assembly.feed options size a event = .ok b)
    (he : b.template.elements[id]? = some e) :
    e.children.toList.Pairwise (a.outline.step event).Precedes := by
  have hstep : ∀ {old : Element}, a.template.elements[id]? = some old →
      old.children.toList.Pairwise (a.outline.step event).Precedes := by
    intro old hold
    refine (h.children hold).imp_of_mem fun hn hm hprecedes => ?_
    exact hprecedes.step h.laid htimeline (h.known hold hn) (h.known hold hm)
  have hchildren := Assembly.feed_children h.laid.ordered hfeed he
  generalize e.children.toList = children at hchildren
  cases hchildren with
  | new => exact .nil
  | kept hold hsub => exact (hstep hold).sublist hsub
  | @element old outer tag unary henclosing hold hevent =>
      subst hevent
      refine List.pairwise_append.2 ⟨hstep hold, List.pairwise_singleton _ _, ?_⟩
      intro n hn m hm
      rw [List.mem_singleton.1 hm]
      exact h.precedes_opened htimeline henclosing hold hn
  | @text old outer content span n henclosing hold hevent hn =>
      subst hevent
      refine List.pairwise_append.2 ⟨hstep hold, List.pairwise_singleton _ _, ?_⟩
      intro n' hn' m hm
      rw [List.mem_singleton.1 hm]
      refine h.precedes_new htimeline henclosing hold hn' fun span' hspan' => ?_
      rw [Outline.spanOf?_of_textSpan? hn] at hspan'
      cases hspan'
      exact htimeline.1

theorem Arranged.feed_text (h : Arranged tags last a)
    (htimeline : Event.Timeline last (event :: events))
    (hfeed : Assembly.feed options size a event = .ok b)
    (he : b.template.elements[id]? = some e) (hn : n ∈ e.children.toList) {span : Span}
    (hspan : n.textSpan? = some span) :
    span.start < span.stop ∧ span.stop ≤ (Event.spanAfter last event).stop := by
  have hchildren := Assembly.feed_children h.laid.ordered hfeed he
  rcases hchildren.text_cases hn hspan with ⟨old, hold, hn⟩ | ⟨_, content, _, rfl⟩
  · rcases h.text hold n hn span hspan with ⟨hlt, hle⟩
    exact ⟨hlt, Nat.le_trans hle htimeline.stop_le⟩
  · exact ⟨htimeline.2.1, Nat.le_refl _⟩

theorem Arranged.feed (h : Arranged tags last a)
    (htimeline : Event.Timeline last (event :: events))
    (hfeed : Assembly.feed options size a event = .ok b) :
    Arranged (tags ++ Event.startTags [event]) (Event.spanAfter last event) b where
  treelike := h.treelike.feed hfeed
  laid := by
    rw [feed_outline hfeed]
    exact h.laid.step htimeline
  children := by
    intro id e he
    rw [feed_outline hfeed]
    exact h.feed_children htimeline hfeed he
  text := by
    intro id e he n hn span hspan
    exact h.feed_text htimeline hfeed he hn hspan

/-- A whole timeline keeps an assembly arranged. -/
theorem Arranged.run (h : Arranged tags last a) (htimeline : Event.Timeline last events)
    (hrun : events.foldlM (Assembly.feed options size) a = .ok b) :
    ∃ last', Arranged (tags ++ Event.startTags events) last' b := by
  induction events generalizing a tags last with
  | nil =>
      cases hrun
      exact ⟨last, by simpa [Event.startTags] using h⟩
  | cons event events ih =>
      rcases foldlM_cons_eq_ok.1 hrun with ⟨next, hnext, hrest⟩
      rcases ih (h.feed htimeline hnext) htimeline.tail hrest with ⟨last', hlast⟩
      refine ⟨last', ?_⟩
      rw [List.append_assoc, ← Event.startTags_append] at hlast
      exact hlast

end Arranged

end Assembly

/-! ## The whole template -/

/-- A span that can be used with its source: it can be sliced, and both ends have a line and a
column. -/
structure Span.Usable (source : String) (span : Span) : Prop extends span.Placed source where
  stop_le : span.stop ≤ Text.byteLength source.toList
  slice : (span.slice? source).isSome
  start_lineCol : ((LineIndex.ofText source).lineCol? span.start).isSome
  stop_lineCol : ((LineIndex.ofText source).lineCol? span.stop).isSome

theorem Span.Placed.usable {source : String} {span : Span} (h : span.Placed source) :
    span.Usable source := by
  rcases h.covers with ⟨inside, hinside⟩
  have hstop := hinside.stop_le
  refine ⟨h, hstop, ?_, ?_, ?_⟩
  · simp [hinside.slice?_eq]
  · exact LineIndex.isSome_lineCol? (Nat.le_trans hinside.start_le hstop)
  · exact LineIndex.isSome_lineCol? hstop

namespace Template

/-- The span of a node. -/
def spanOf? (t : Template) : Node → Option Span
  | .element id => t.elements[id]?.map (·.span)
  | n => n.textSpan?

/-- The spans of a template are nested like its elements; `tags` are the start tags of the
elements. -/
structure LaidOut (tags : List StartTag) (t : Template) : Prop where
  /-- An element is in its parent, behind the start tag. -/
  inside : ∀ {id parent : ElementId} {e outer : Element},
    t.elements[id]? = some e → e.parent = some parent → t.elements[parent]? = some outer →
    ∃ tag, tags[parent]? = some tag ∧ outer.span.start = tag.span.start ∧
      tag.span.stop ≤ e.span.start ∧ e.span.stop ≤ outer.span.stop
  /-- Of two elements neither of which is an ancestor of the other, one ends before the other
  starts. -/
  apart : ∀ {i j : ElementId} {e e' : Element},
    t.elements[i]? = some e → t.elements[j]? = some e' →
    i ∉ t.ancestors j → j ∉ t.ancestors i →
    e.span.stop ≤ e'.span.start ∨ e'.span.stop ≤ e.span.start
  /-- Children have spans, and follow each other. -/
  children : ∀ {id : ElementId} {e : Element}, t.elements[id]? = some e →
    (∀ n ∈ e.children.toList, (t.spanOf? n).isSome) ∧
    e.children.toList.Pairwise fun n m =>
      ∀ span span', t.spanOf? n = some span → t.spanOf? m = some span' →
        span.start < span'.start ∧ span.stop ≤ span'.start

end Template

namespace Assembly

variable {a : Assembly} {tags : List StartTag} {last : Span} {i j : ElementId}

theorem mem_ancestors_self (t : Template) (id : ElementId) : id ∈ t.ancestors id := by
  rw [Template.ancestors]
  split
  · simp
  · split <;> simp

/-- What is around an element is one of its ancestors. -/
theorem mem_ancestors_of_above (h : Outline.Above a.outline.parents i j)
    (ha : a.outline.Ordered) : i ∈ a.template.ancestors j := by
  have hup : ∀ {j parent : ElementId}, a.outline.parents[j]? = some (some parent) →
      i ∈ a.template.ancestors parent → i ∈ a.template.ancestors j := by
    intro j parent hj hi
    have hlt := ha.parents_lt hj
    rw [Outline.parents, List.getElem?_map, outline, Template.getElem?_headers, Option.map_map]
      at hj
    rcases Option.map_eq_some_iff.1 hj with ⟨e, he, hparent⟩
    have hbind : a.template.elements[j]?.bind (·.parent) = some parent := by
      rw [he]
      exact hparent
    rw [Template.ancestors]
    simp [hbind, hlt, hi]
  induction h with
  | parent hj => exact hup hj (mem_ancestors_self _ _)
  | outer hj _ ih => exact hup hj ih

theorem spanOf?_outline (a : Assembly) (n : Node) : a.outline.spanOf? n = a.template.spanOf? n := by
  cases n with
  | expression parsed text span => rfl
  | text content span => rfl
  | element id =>
      rw [Outline.spanOf?, Template.spanOf?, outline, Template.getElem?_headers, Option.map_map]
      rfl

/-- When everything is closed, the template is laid out like its tree. -/
theorem Arranged.laidOut (h : Arranged tags last a) (henclosing : a.enclosing = []) :
    a.template.LaidOut tags := by
  have hheader : ∀ {id : ElementId} {e : Element}, a.template.elements[id]? = some e →
      a.outline.headers[id]? = some e.header := by
    intro id e he
    rw [outline, Template.getElem?_headers, he]
    rfl
  have hnone : ∀ id, id ∉ a.outline.enclosing := by
    intro id
    rw [outline, henclosing]
    exact List.not_mem_nil
  have hbefore : ∀ {i j : ElementId} {e e' : Element}, i < j →
      a.template.elements[i]? = some e → a.template.elements[j]? = some e' →
      i ∉ a.template.ancestors j → e.span.stop ≤ e'.span.start := by
    intro i j e e' hij hi hj hnot
    rcases h.laid.apart hij (hheader hi) (hheader hj) with habove | ⟨_, hle⟩
    · exact absurd (mem_ancestors_of_above habove h.laid.ordered) hnot
    · exact hle
  constructor
  · intro id parent e outer he hparent houter
    rcases h.laid.exists_tag (hheader houter) with ⟨tag, htag⟩
    rcases h.laid.extent (hheader houter) htag with ⟨hstart, _⟩
    rcases h.laid.inside (hheader he) hparent (hheader houter) htag with ⟨hbehind, hopen | hend⟩
    · exact absurd hopen (hnone parent)
    · exact ⟨tag, htag, hstart, hbehind, hend⟩
  · intro i j e e' hi hj hij hji
    rcases Nat.lt_trichotomy i j with hlt | rfl | hlt
    · exact .inl (hbefore hlt hi hj hij)
    · exact absurd (mem_ancestors_self _ _) hij
    · exact .inr (hbefore hlt hj hi hji)
  · intro id e he
    constructor
    · intro n hn
      cases n with
      | expression parsed text span => rfl
      | text content span => rfl
      | element child =>
          have hlt := h.known he hn child rfl
          rw [outline, Template.length_headers] at hlt
          simp [Template.spanOf?, hlt]
    · refine (h.children he).imp fun hprecedes span span' hspan hspan' => ?_
      rw [← spanOf?_outline] at hspan hspan'
      exact hprecedes.2 span span' hspan hspan'

end Assembly

variable {options : Options} {source : String} {parsed : Parsed}

/-- The events of a source leave nothing open. -/
theorem Assembly.enclosing_run_scan {a : Assembly} {size : Nat}
    (hrun : (scan source).foldlM (feed options size) {} = .ok a) : a.enclosing = [] := by
  have hbalanced : Event.Balanced (scan source) :=
    Event.balanced_of_replay? (reads_scan source).replay
  calc
    a.enclosing = a.outline.enclosing := rfl
    _ = (Outline.ofEvents (scan source)).enclosing :=
        congrArg Outline.enclosing (run_outline hrun)
    _ = [] := Outline.enclosing_ofEvents (.outermost hbalanced)

theorem parse_laidOut (h : parse options source = .ok parsed) :
    parsed.template.LaidOut (Event.startTags (scan source)) := by
  rcases parse_eq_ok h with ⟨a, hrun, htemplate, _⟩
  rcases Assembly.arranged_empty.run (timeline_scan source) hrun with ⟨last, ha⟩
  rw [htemplate]
  exact ha.laidOut (Assembly.enclosing_run_scan hrun)

/-- Every span in the result of a parse can be used with the source: those of the elements, their
attributes, texts and expressions, and those of the warnings. The spans are nested like the
elements, and the children of every element follow each other. -/
theorem parse_spans (h : parse options source = .ok parsed) :
    parsed.template.Within (Span.Usable source) ∧
    (∀ w ∈ parsed.warnings, w.span.Usable source) ∧
    parsed.template.LaidOut (Event.startTags (scan source)) := by
  rcases parse_within h with ⟨htemplate, hwarnings⟩
  refine ⟨?_, fun w hw => (hwarnings w hw).usable, parse_laidOut h⟩
  intro id e he
  have hplaced := htemplate id e he
  exact ⟨hplaced.span.usable, fun x hx => (hplaced.attributes x hx).usable,
    fun n hn span hspan => (hplaced.text n hn span hspan).usable⟩

/-- An item that the end tag of its list closes, behind a letter of two bytes. -/
theorem parse_spans_open_item :
    ∃ parsed e, parse {} "<ul>é<li>x</ul>" = .ok parsed ∧
      parsed.template.elements[1]? = some e ∧ e.parent = some 0 ∧ e.span = ⟨6, 16⟩ ∧
      e.span.Usable "<ul>é<li>x</ul>" ∧
      parsed.template.LaidOut (Event.startTags (scan "<ul>é<li>x</ul>")) := by
  have hheader : ((parse {} "<ul>é<li>x</ul>").map fun parsed =>
      parsed.template.elements[1]?.map Element.header).toOption =
      some (some ⟨"li", some 0, ⟨6, 16⟩⟩) := by
    decide +kernel
  cases h : parse {} "<ul>é<li>x</ul>" with
  | error error =>
      rw [h] at hheader
      cases hheader
  | ok parsed =>
      rw [h] at hheader
      rcases Option.map_eq_some_iff.1 (Option.some.inj hheader) with ⟨e, he, heheader⟩
      rcases parse_spans h with ⟨hwithin, _, hlaidOut⟩
      exact ⟨parsed, e, rfl, he, congrArg Header.parent heheader, congrArg Header.span heheader,
        (hwithin 1 e he).span, hlaidOut⟩

end TemplateMarkup
