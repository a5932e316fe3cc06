import TemplateMarkup.Proofs.Template.Skeleton
import TemplateMarkup.Template.Assembly

/-!
# How an assembly changes

What the single operations of an `Assembly` leave alone, and what they can do:

* `Assembly.Links a id e b` — the ways in which a new element is linked, one constructor for each,
* `Assembly.links_link` — linking is one of these ways,
* `Assembly.openElement_eq_ok` — opening is reading the start tag, then linking.

Warnings are reported on the way and change neither the template nor the elements that are open.
-/

namespace TemplateMarkup

namespace Template

variable {t : Template} {id : ElementId} {f g : Element → Element}

/-! ## Changing one element of a template -/

@[simp] theorem modify_root (t : Template) (id : ElementId) (f : Element → Element) :
    (t.modify id f).root = t.root := rfl

@[simp] theorem size_modify (t : Template) (id : ElementId) (f : Element → Element) :
    (t.modify id f).elements.size = t.elements.size :=
  Array.size_modify

theorem getElem?_modify (t : Template) (id j : ElementId) (f : Element → Element) :
    (t.modify id f).elements[j]? =
      if id = j then t.elements[j]?.map f else t.elements[j]? :=
  Array.getElem?_modify

/-- Templates with the same root and the same elements are equal. -/
theorem ext_getElem? {t t' : Template} (hroot : t.root = t'.root)
    (helements : ∀ j : ElementId, t.elements[j]? = t'.elements[j]?) : t = t' := by
  cases t with
  | mk elements root =>
      cases t' with
      | mk elements' root' =>
          cases hroot
          have hsame : elements = elements' := Array.ext_getElem? helements
          rw [hsame]

/-- Only the element that is changed matters. -/
theorem modify_congr (h : ∀ e, t.elements[id]? = some e → f e = g e) :
    t.modify id f = t.modify id g := by
  refine ext_getElem? rfl fun j => ?_
  rw [getElem?_modify, getElem?_modify]
  by_cases hj : id = j
  · subst hj
    cases he : t.elements[id]? with
    | none => rfl
    | some e => simp [h e he]
  · simp [hj]

/-- What is seen of every element changes in one place. -/
theorem map_modify {β : Type} {view : Element → β} {k : β → β}
    (hview : ∀ e, view (f e) = k (view e)) (t : Template) (id : ElementId) :
    (t.modify id f).elements.toList.map view =
      (t.elements.toList.map view).modify id k := by
  apply List.ext_getElem?
  intro j
  have hmodify := getElem?_modify t id j f
  rw [List.getElem?_modify, List.getElem?_map, List.getElem?_map, Array.getElem?_toList,
    Array.getElem?_toList, hmodify]
  cases t.elements[j]? with
  | none => simp
  | some e => by_cases hj : id = j <;> simp [hj, hview]

theorem modify_of_none (h : t.elements[id]? = none) : t.modify id f = t := by
  refine ext_getElem? rfl fun j => ?_
  rw [getElem?_modify]
  by_cases hj : id = j
  · subst hj
    simp [h]
  · simp [hj]

end Template

namespace Assembly

variable {a b : Assembly} {id parent : ElementId} {e : Element}

/-! ## Warnings -/

@[simp] theorem warn_template (a : Assembly) (kind : Warning.Kind) (span : Span) :
    (a.warn kind span).template = a.template := rfl

@[simp] theorem warn_enclosing (a : Assembly) (kind : Warning.Kind) (span : Span) :
    (a.warn kind span).enclosing = a.enclosing := rfl

@[simp] theorem warnElse_template (a : Assembly) (e : Element) :
    (a.warnElse e).template = a.template := rfl

@[simp] theorem warnElse_enclosing (a : Assembly) (e : Element) :
    (a.warnElse e).enclosing = a.enclosing := rfl

@[simp] theorem warnUnstable_template (a : Assembly) (e : Element) :
    (a.warnUnstable e).template = a.template := by
  unfold warnUnstable
  split
  · rfl
  · split <;> rfl

@[simp] theorem warnUnstable_enclosing (a : Assembly) (e : Element) :
    (a.warnUnstable e).enclosing = a.enclosing := by
  unfold warnUnstable
  split
  · rfl
  · split <;> rfl

@[simp] theorem textOutside_template (size : Nat) (a : Assembly) (content : String) (span : Span) :
    (a.textOutside size content span).template = a.template := by
  unfold textOutside
  dsimp only
  split <;> rfl

@[simp] theorem textOutside_enclosing (size : Nat) (a : Assembly) (content : String)
    (span : Span) : (a.textOutside size content span).enclosing = a.enclosing := by
  unfold textOutside
  dsimp only
  split <;> rfl

@[simp] theorem finish_template (size : Nat) (a : Assembly) :
    (a.finish size).template = a.template := by
  unfold finish
  split <;> rfl

/-! ## Changing one element -/

@[simp] theorem modify_template (a : Assembly) (id : ElementId) (f : Element → Element) :
    (a.modify id f).template = a.template.modify id f := rfl

@[simp] theorem modify_enclosing (a : Assembly) (id : ElementId) (f : Element → Element) :
    (a.modify id f).enclosing = a.enclosing := rfl

@[simp] theorem addRoot_template (a : Assembly) (id : ElementId) (e : Element) :
    (a.addRoot id e).template = { a.template with root := some id } := by
  simp only [addRoot, warnUnstable_template]
  split <;> rfl

@[simp] theorem addRoot_enclosing (a : Assembly) (id : ElementId) (e : Element) :
    (a.addRoot id e).enclosing = a.enclosing := by
  simp only [addRoot, warnUnstable_enclosing]
  split <;> rfl

/-- The element with another branch in its chain. -/
def withBranch (branch : Branch) (e : Element) : Element :=
  e.update fun d => { d with branches := d.branches ++ [branch] }

@[simp] theorem addBranch_template (a : Assembly) (head id : ElementId) (e : Element) :
    (a.addBranch head id e).template =
      a.template.modify head (withBranch ⟨e.directives.elseCondition, id⟩) := rfl

/-- The element with a scoped slot under `target`. -/
def withSlot (target : String) (id : ElementId) (e : Element) : Element :=
  e.update fun d => { d with isPlain := false, scopedSlots := Assoc.set target id d.scopedSlots }

@[simp] theorem addSlot_template (a : Assembly) (parent id : ElementId) (e : Element) :
    (a.addSlot parent id e).template =
      a.template.modify parent (withSlot (e.directives.slotTarget.getD Element.defaultSlot) id) :=
  rfl

/-- The element with another child. -/
def withChild (n : Node) (e : Element) : Element :=
  { e with children := e.children.push n }

@[simp] theorem addChild_template (a : Assembly) (parent : ElementId) (n : Node) :
    (a.addChild parent n).template = a.template.modify parent (withChild n) := rfl

/-- The element at its end: without a space behind its children, and with its full span. -/
def closedAt (span : Span) (e : Element) : Element :=
  { e with
    children := if e.children.back?.any Node.isSpace then e.children.pop else e.children
    span := e.span.cover span }

theorem closeElement_of_cons {outer : List ElementId} (h : a.enclosing = id :: outer)
    (span : Span) :
    a.closeElement span = { a with enclosing := outer }.modify id (closedAt span) := by
  unfold closeElement
  rw [h]
  rfl

theorem closeElement_of_nil (h : a.enclosing = []) (span : Span) : a.closeElement span = a := by
  unfold closeElement
  rw [h]

/-- The element with the text taken off the end of its children. -/
def withoutText (e : Element) : Element :=
  { e with children := e.children.popWhile Node.isText }

/-- Read from the end, what is kept starts behind the text. -/
theorem children_withoutText (e : Element) :
    (withoutText e).children.toList =
      (e.children.toList.reverse.dropWhile Node.isText).reverse := by
  unfold withoutText
  rcases e.children with ⟨children⟩
  simp

/-- The text that is taken off, in order. -/
theorem children_eq_withoutText_append (e : Element) :
    e.children.toList = (withoutText e).children.toList ++
      (e.children.toList.reverse.takeWhile Node.isText).reverse := by
  -- From the end, the text that is dropped is a `takeWhile`, and what is kept a `dropWhile`.
  rw [children_withoutText, ← List.reverse_append, List.takeWhile_append_dropWhile,
    List.reverse_reverse]

theorem children_withoutText_sublist (e : Element) :
    (withoutText e).children.toList.Sublist e.children.toList := by
  rw [children_withoutText, ← List.reverse_sublist, List.reverse_reverse]
  exact List.dropWhile_sublist _

/-- At its end an element loses at most a space. -/
theorem children_eq_closedAt_append (span : Span) (e : Element) :
    ∃ rest, e.children.toList = (closedAt span e).children.toList ++ rest ∧
      ∀ n ∈ rest, n.isSpace := by
  cases hback : e.children.back? with
  | none => exact ⟨[], by simp [closedAt, hback], by simp⟩
  | some last =>
      by_cases hspace : last.isSpace = true
      · rcases Array.back?_eq_some_iff.1 hback with ⟨front, hfront⟩
        exact ⟨[last], by simp [closedAt, hfront, hspace], by simpa using hspace⟩
      · exact ⟨[], by simp [closedAt, hback, hspace], by simp⟩

theorem children_closedAt_sublist (span : Span) (e : Element) :
    (closedAt span e).children.toList.Sublist e.children.toList := by
  rcases children_eq_closedAt_append span e with ⟨rest, hrest, _⟩
  rw [hrest]
  exact List.sublist_append_left _ _

theorem dropText_template (a : Assembly) (parent : ElementId) :
    (a.dropText parent).template = a.template.modify parent withoutText := by
  unfold dropText
  split
  · next hnone => exact (Template.modify_of_none hnone).symm
  · -- The children that are kept are computed outside of `modify`, from the same element.
    next p hp =>
      refine Template.modify_congr fun e he => ?_
      rw [hp] at he
      cases he
      rfl

@[simp] theorem dropText_enclosing (a : Assembly) (parent : ElementId) :
    (a.dropText parent).enclosing = a.enclosing := by
  unfold dropText
  split <;> rfl

/-! ## Linking -/

/-- The ways in which the element `e`, which is number `id`, is linked. -/
inductive Links (a : Assembly) (id : ElementId) (e : Element) : Assembly → Prop where
  | root :
      a.enclosing = [] → a.template.root = none → Links a id e (a.addRoot id e)
  /-- A branch of the root's chain. -/
  | rootBranch {root : ElementId} :
      a.enclosing = [] → a.template.root = some root → e.directives.isBranch →
      a.template.elements[root]?.any takesBranch →
      Links a id e ((a.warnUnstable e).addBranch root id e)
  /-- A branch outside the root that belongs to no chain. -/
  | rootOrphan {root : ElementId} :
      a.enclosing = [] → a.template.root = some root → e.directives.isBranch →
      ¬a.template.elements[root]?.any takesBranch → Links a id e (a.warnElse e)
  | secondRoot {root : ElementId} :
      a.enclosing = [] → a.template.root = some root → ¬e.directives.isBranch →
      ¬a.severalRoots →
      Links a id e ({ a with severalRoots := true }.warn .multipleRoots e.span)
  | laterRoot {root : ElementId} :
      a.enclosing = [] → a.template.root = some root → ¬e.directives.isBranch →
      a.severalRoots → Links a id e a
  /-- A branch of the chain of the element before it. -/
  | branch {parent head : ElementId} {outer : List ElementId} :
      a.enclosing = parent :: outer → e.directives.isBranch →
      (a.dropText parent).lastElement? parent = some head →
      (a.dropText parent).template.elements[head]?.any (·.directives.condition.isSome) →
      Links a id e ((a.dropText parent).addBranch head id e)
  /-- A branch inside an element that belongs to no chain. -/
  | orphan {parent : ElementId} {outer : List ElementId} :
      a.enclosing = parent :: outer → e.directives.isBranch →
      (∀ head, (a.dropText parent).lastElement? parent = some head →
        ¬(a.dropText parent).template.elements[head]?.any (·.directives.condition.isSome)) →
      Links a id e ((a.dropText parent).warnElse e)
  | slot {parent : ElementId} {outer : List ElementId} :
      a.enclosing = parent :: outer → ¬e.directives.isBranch →
      e.directives.slotScope.isSome → Links a id e (a.addSlot parent id e)
  | child {parent : ElementId} {outer : List ElementId} :
      a.enclosing = parent :: outer → ¬e.directives.isBranch →
      ¬e.directives.slotScope.isSome → Links a id e (a.addChild parent (.element id))

theorem links_addTopLevel {root : ElementId} (henclosing : a.enclosing = [])
    (hroot : a.template.root = some root) : Links a id e (a.addTopLevel root id e) := by
  unfold addTopLevel
  split
  · next hbranch =>
      split
      · next htakes => exact .rootBranch henclosing hroot hbranch htakes
      · next htakes => exact .rootOrphan henclosing hroot hbranch htakes
  · next hbranch =>
      split
      · next hseveral => exact .laterRoot henclosing hroot hbranch hseveral
      · next hseveral => exact .secondRoot henclosing hroot hbranch hseveral

theorem links_addInside {outer : List ElementId} (henclosing : a.enclosing = parent :: outer) :
    Links a id e (a.addInside parent id e) := by
  unfold addInside
  split
  · next hbranch =>
      simp only [addElse]
      split
      · -- No element stands before it, only text or nothing.
        next hlast =>
          refine .orphan henclosing hbranch fun head hhead => ?_
          rw [hlast] at hhead
          cases hhead
      · next head hlast =>
          split
          · next hcondition => exact .branch henclosing hbranch hlast hcondition
          · next hcondition =>
              refine .orphan henclosing hbranch fun other hother => ?_
              rw [hlast] at hother
              cases hother
              exact hcondition
  · next hbranch =>
      split
      · next hscope => exact .slot henclosing hbranch hscope
      · next hscope => exact .child henclosing hbranch hscope

/-- Linking is one of these ways. -/
theorem links_link (a : Assembly) (id : ElementId) (e : Element) :
    Links a id e (a.link id e) := by
  unfold link
  split
  · next henclosing => exact links_addInside henclosing
  · next henclosing hroot => exact .root henclosing hroot
  · next henclosing hroot => exact links_addTopLevel henclosing hroot

theorem Links.enclosing_eq (h : Links a id e b) : b.enclosing = a.enclosing := by
  cases h with
  | root _ _ => simp
  | rootBranch _ _ _ _ => simp [addBranch]
  | rootOrphan _ _ _ _ => simp
  | secondRoot _ _ _ _ => simp
  | laterRoot _ _ _ _ => rfl
  | branch _ _ _ _ => simp [addBranch]
  | orphan _ _ _ => simp
  | slot _ _ _ => simp [addSlot]
  | child _ _ _ => simp [addChild]

/-! ## Events -/

section Feed

variable (options : Options) (size : Nat) (a : Assembly)

theorem feed_opened (tag : StartTag) (unary : Bool) :
    feed options size a (.opened tag unary) = a.openElement options tag unary := rfl

theorem feed_closed (name : String) (span : Span) :
    feed options size a (.closed name span) = .ok (a.closeElement span) := rfl

theorem feed_text (content : String) (span : Span) :
    feed options size a (.text content span) = .ok (a.readText options size content span) := rfl

theorem feed_warned (warning : Warning) :
    feed options size a (.warned warning) =
      .ok { a with warnings := a.warnings.push warning } := rfl

end Feed

/-- The text that a run stands for is added to the innermost element; without such a text, no
element changes. -/
theorem readText_cases (options : Options) (size : Nat) (a : Assembly) (content : String)
    (span : Span) :
    (a.readText options size content span).template = a.template ∨
      ∃ parent outer e text, a.enclosing = parent :: outer ∧
        a.template.elements[parent]? = some e ∧ textIn? options e content = some text ∧
        (a.readText options size content span).template =
          a.template.modify parent (addText options text span) := by
  unfold readText
  split
  · exact .inl (textOutside_template _ _ _ _)
  · next parent outer henclosing =>
      -- Blank text may add nothing at all.
      split
      · exact .inl rfl
      · next text htext =>
          rcases Option.bind_eq_some_iff.1 htext with ⟨e, he, hin⟩
          exact .inr ⟨parent, outer, e, text, henclosing, he, hin, rfl⟩

/-- Text is added to the innermost element, or changes no element at all. -/
theorem readText_template (options : Options) (size : Nat) (a : Assembly) (content : String)
    (span : Span) :
    (a.readText options size content span).template = a.template ∨
      ∃ parent text, a.enclosing.head? = some parent ∧
        (a.readText options size content span).template =
          a.template.modify parent (addText options text span) := by
  rcases readText_cases options size a content span with
    hsame | ⟨parent, outer, e, text, henclosing, _, _, htext⟩
  · exact .inl hsame
  · exact .inr ⟨parent, text, by simp [henclosing], htext⟩

@[simp] theorem readText_enclosing (options : Options) (size : Nat) (a : Assembly)
    (content : String) (span : Span) :
    (a.readText options size content span).enclosing = a.enclosing := by
  unfold readText
  split
  · exact textOutside_enclosing _ _ _ _
  · split <;> rfl

/-! ## Opening -/

/-- The assembly with a new element that is not linked yet. -/
def extend (a : Assembly) (e : Element) (warnings : List Warning) : Assembly :=
  { a with template := a.template.push e, warnings := a.warnings ++ warnings }

@[simp] theorem extend_template (a : Assembly) (e : Element) (warnings : List Warning) :
    (a.extend e warnings).template = a.template.push e := rfl

@[simp] theorem extend_enclosing (a : Assembly) (e : Element) (warnings : List Warning) :
    (a.extend e warnings).enclosing = a.enclosing := rfl

/-- The assembly inside the element `id`, unless that element is unary. -/
def enter (a : Assembly) (unary : Bool) (id : ElementId) : Assembly :=
  if unary then a else { a with enclosing := id :: a.enclosing }

@[simp] theorem enter_template (a : Assembly) (unary : Bool) (id : ElementId) :
    (a.enter unary id).template = a.template := by
  unfold enter
  split <;> rfl

@[simp] theorem enter_enclosing (a : Assembly) (unary : Bool) (id : ElementId) :
    (a.enter unary id).enclosing = if unary then a.enclosing else id :: a.enclosing := by
  unfold enter
  split <;> rfl

theorem openElement_of_read {options : Options} {tag : StartTag} {warnings : List Warning}
    (h : Element.ofStartTag options a.template a.template.elements.size a.enclosing.head? tag =
      .ok (e, warnings)) (unary : Bool) :
    a.openElement options tag unary =
      .ok (((a.extend e warnings).link a.template.elements.size e).enter unary
        a.template.elements.size) := by
  unfold openElement
  dsimp only
  rw [h]
  rfl

/-- Opening reads the start tag, links the new element and enters it. -/
theorem openElement_eq_ok {options : Options} {tag : StartTag} {unary : Bool}
    (h : a.openElement options tag unary = .ok b) :
    ∃ e warnings linked,
      Element.ofStartTag options a.template a.template.elements.size a.enclosing.head? tag =
        .ok (e, warnings) ∧
      Links (a.extend e warnings) a.template.elements.size e linked ∧
      b = linked.enter unary a.template.elements.size := by
  cases hread : Element.ofStartTag options a.template a.template.elements.size
      a.enclosing.head? tag with
  | error error =>
      unfold openElement at h
      dsimp only at h
      rw [hread] at h
      cases h
  | ok read =>
      rcases read with ⟨e, warnings⟩
      rw [openElement_of_read hread] at h
      cases h
      exact ⟨e, warnings, _, rfl, links_link _ _ _, rfl⟩

end Assembly
end TemplateMarkup
