import TemplateMarkup.Proofs.Markup.Scan
import TemplateMarkup.Proofs.Reference.Decode
import TemplateMarkup.Proofs.Template.Outline

/-!
# Parsing plain markup

A tree that is written and read again is the same tree: `parse_source`. The events of the source
are known from the scanner (`Markup.Document.spells_scan`); here they are fed to an assembly.

* `Element.ofStartTag_plain` — without attributes, an element has nothing but its tag,
* `Assembly.feed_literal` — a literal text becomes one text node,
* `Assembly.Inside a front current back` — reading goes on inside an element of known shape,
* `Markup.Spells.feed` — the events of trees are taken in as those trees.
-/

namespace TemplateMarkup

/-! ## Elements without attributes -/

namespace Element

/-- A new element without attributes. -/
def plain (name : String) (parent : Option ElementId) (span : Span) : Element :=
  { tag := name, attributes := [], attributeMap := [], parent, span
    directives := { isPlain := true } }

theorem ofStartTag_plain (options : Options) (t : Template) (id : ElementId)
    (parent : Option ElementId) (name : String) (span : Span) :
    ofStartTag options t id parent ⟨name, [], false, span⟩ =
      .ok (plain name parent span, []) := by
  -- Nothing is claimed, and every directive is set to what it is by default.
  have hnil : (unread ⟨name, [], false, span⟩ parent).attributeMap = [] := rfl
  have hcondition : (unread ⟨name, [], false, span⟩ parent).readCondition id =
      unread ⟨name, [], false, span⟩ parent :=
    readCondition_of_nil hnil id
  have honce : (unread ⟨name, [], false, span⟩ parent).readOnce =
      unread ⟨name, [], false, span⟩ parent :=
    readOnce_of_nil hnil
  -- Only here the element changes: it is plain from now on.
  have hread : (unread ⟨name, [], false, span⟩ parent).readPlain = plain name parent span := rfl
  have hplain : (plain name parent span).attributeMap = [] := rfl
  have hslot : (plain name parent span).readSlot = plain name parent span := by
    rcases readSlot_of_nil hplain with hslot | hslot
    · exact hslot
    · exact hslot
  have hcomponent : (plain name parent span).readComponent = plain name parent span :=
    readComponent_of_nil hplain
  unfold ofStartTag
  rw [readLoop_of_nil hnil]
  dsimp only
  rw [hcondition, honce, readKey_of_nil hnil]
  dsimp only
  rw [hread, readRef_of_nil hplain, hslot, hcomponent]
  rfl

end Element

/-! ## Literal texts -/

namespace Markup

variable {content : String}

theorem Literal.ne_space (h : Literal content) : content ≠ " " := by
  rintro rfl
  exact h.not_blank (by decide)

theorem Literal.parse?_eq_none (h : Literal content) :
    Interpolated.parse? .braces content = none := by
  have hfind : Interpolation.find? .braces content.toList = none := by
    cases hfind : Interpolation.find? .braces content.toList with
    | none => rfl
    | some found =>
        -- What is found would be a pair of braces with a body between them.
        rcases Interpolation.find?_eq_some hfind with ⟨hcontent, hbody⟩
        exact absurd hcontent (h.no_interpolation _ _ _ hbody)
  simp [Interpolated.parse?, hfind]

theorem ElementName.not_verbatim {name : String} (h : ElementName name) :
    ¬Tag.isVerbatim name := by
  intro hverbatim
  have hnames : name.toLower = "script" ∨ name.toLower = "style" := by
    simpa [Tag.isVerbatim] using hverbatim
  refine h.not_raw ?_
  rcases hnames with hscript | hstyle
  · simp [Tag.isRawText, Tag.rawTextTags, hscript]
  · simp [Tag.isRawText, Tag.rawTextTags, hstyle]

end Markup

/-! ## Single events -/

namespace Assembly

open Markup

variable {a b : Assembly} {p : ElementId} {e : Element} {outer : List ElementId}
  {name content : String} {span : Span} {size : Nat}

theorem addText_literal (h : Literal content) (span : Span) :
    addText {} content span = withChild (.text content span) := by
  have hmarks : Options.marks {} = .braces := rfl
  funext e
  unfold addText
  rw [if_neg h.ne_space, hmarks, h.parse?_eq_none]
  rfl

theorem textIn?_literal (h : Literal content) (htag : ¬Tag.isVerbatim e.tag) :
    textIn? {} e content = some content := by
  have hdecode : Reference.decodeText content.toList = content.toList :=
    Reference.decode_of_not_mem h.no_reference
  unfold textIn?
  rw [if_neg h.not_blank, if_neg htag, hdecode, String.ofList_toList]

/-- Inside an element, a literal text becomes one text node. -/
theorem feed_literal (henclosing : a.enclosing = p :: outer)
    (he : a.template.elements[p]? = some e) (htag : ¬Tag.isVerbatim e.tag)
    (h : Literal content) :
    feed {} size a (.text content span) = .ok (a.addChild p (.text content span)) := by
  rw [feed_text]
  unfold readText
  rw [henclosing]
  simp only [he, Option.bind_some, textIn?_literal h htag, addText_literal h]
  rfl

/-- Inside an element, a plain element becomes a child. -/
theorem feed_child (henclosing : a.enclosing = p :: outer) (unary : Bool) :
    feed {} size a (.opened ⟨name, [], false, span⟩ unary) =
      .ok (((a.extend (.plain name (some p) span) []).addChild p
        (.element a.template.elements.size)).enter unary a.template.elements.size) := by
  have hread : Element.ofStartTag {} a.template a.template.elements.size a.enclosing.head?
      ⟨name, [], false, span⟩ = .ok (.plain name (some p) span, []) := by
    rw [henclosing]
    exact Element.ofStartTag_plain {} _ _ _ name span
  have hinside : (a.extend (.plain name (some p) span) []).enclosing = p :: outer := henclosing
  rw [feed_opened, openElement_of_read hread]
  unfold link
  rw [hinside]
  rfl

theorem addRoot_plain (hslot : name ≠ "slot") (htemplate : name ≠ "template")
    (a : Assembly) (id : ElementId) (parent : Option ElementId) (span : Span) :
    a.addRoot id (.plain name parent span) =
      { a with template := { a.template with root := some id } } := by
  have hstable : ¬((Element.plain name parent span).tag = "slot" ∨
      (Element.plain name parent span).tag = "template") := by
    rintro (h | h)
    · exact hslot h
    · exact htemplate h
  -- Without directives it is neither a loop nor a branch.
  have hloop : ¬(Element.plain name parent span).directives.loop.isSome := Bool.false_ne_true
  have hbranch : ¬(Element.plain name parent span).directives.isBranch := Bool.false_ne_true
  unfold addRoot warnUnstable
  rw [if_neg hstable, if_neg hloop]
  dsimp only
  rw [if_neg hbranch]

/-- Outside all elements, the first plain element becomes the root. -/
theorem feed_root (henclosing : a.enclosing = []) (hroot : a.template.root = none)
    (unary : Bool) :
    feed {} size a (.opened ⟨name, [], false, span⟩ unary) =
      .ok (((a.extend (.plain name none span) []).addRoot a.template.elements.size
        (.plain name none span)).enter unary a.template.elements.size) := by
  have hread : Element.ofStartTag {} a.template a.template.elements.size a.enclosing.head?
      ⟨name, [], false, span⟩ = .ok (.plain name none span, []) := by
    rw [henclosing]
    exact Element.ofStartTag_plain {} _ _ _ name span
  have houtside : (a.extend (.plain name none span) []).enclosing = [] := henclosing
  have hnone : (a.extend (.plain name none span) []).template.root = none := hroot
  rw [feed_opened, openElement_of_read hread]
  unfold link
  rw [houtside, hnone]

/-- Opening, content and closing of an element, one after the other. -/
theorem run_element {first : Event} {inner : List Event} {mid full : Assembly}
    (hfirst : feed {} size a first = .ok mid) (hinner : inner.foldlM (feed {} size) mid = .ok full)
    (name : String) (last : Span) :
    (first :: (inner ++ [.closed name last])).foldlM (feed {} size) a =
      .ok (full.closeElement last) := by
  have hlast : [Event.closed name last].foldlM (feed {} size) full =
      .ok (full.closeElement last) :=
    foldlM_cons_eq_ok.2 ⟨_, feed_closed _ _ _ name last, rfl⟩
  exact foldlM_cons_eq_ok.2 ⟨mid, hfirst, foldlM_append_eq_ok.2 ⟨full, hinner, hlast⟩⟩

end Assembly

/-! ## Shapes -/

namespace Template

variable {t : Template} {f : Element → Element} {k : Shape → Shape}

@[simp] theorem length_shapes (t : Template) : t.shapes.length = t.elements.size := by
  simp [shapes]

@[simp] theorem shapes_push (t : Template) (e : Element) :
    (t.push e).shapes = t.shapes ++ [e.shape] := by
  simp [shapes, push]

theorem shapes_modify {front back : List Shape} {current : Shape}
    (hk : ∀ e, (f e).shape = k e.shape) (h : t.shapes = front ++ current :: back) :
    (t.modify front.length f).shapes = front ++ k current :: back := by
  have hmodify : (t.modify front.length f).shapes = t.shapes.modify front.length k :=
    map_modify hk t front.length
  rw [hmodify, h]
  exact List.modifyTailIdx_add _ 0 front (current :: back)

end Template

namespace Shape

/-- The shape with more children. -/
def extend (shape : Shape) (more : List Item) : Shape :=
  { shape with children := shape.children ++ more }

/-- The shape without a space behind its children. -/
def closed (shape : Shape) : Shape :=
  { shape with
    children :=
      if shape.children.getLast? = some (.text " ") then shape.children.dropLast
      else shape.children }

@[simp] theorem extend_nil (shape : Shape) : shape.extend [] = shape := by
  simp [extend]

@[simp] theorem extend_extend (shape : Shape) (more last : List Item) :
    (shape.extend more).extend last = shape.extend (more ++ last) := by
  simp [extend]

end Shape

theorem Node.isSpace_iff (n : Node) : n.isSpace ↔ n.item = .text " " := by
  cases n <;> simp [isSpace, literal?, item]

namespace Assembly

open Markup

theorem shape_withChild (n : Node) (e : Element) :
    (withChild n e).shape = e.shape.extend [n.item] := by
  simp [withChild, Element.shape, Shape.extend]

theorem shape_closedAt (span : Span) (e : Element) :
    (closedAt span e).shape = e.shape.closed := by
  -- A space can be told from the item alone.
  have hlast : (e.children.back?.any Node.isSpace = true) ↔
      e.shape.children.getLast? = some (.text " ") := by
    simp [Element.shape, Array.getLast?_toList, Node.isSpace_iff, Option.any_eq_true]
  by_cases hspace : e.children.back?.any Node.isSpace = true
  · have hitem := hlast.1 hspace
    rw [Shape.closed, if_pos hitem]
    simp [closedAt, Element.shape, hspace]
  · have hitem := mt hlast.2 hspace
    rw [Shape.closed, if_neg hitem]
    simp [closedAt, Element.shape, hspace]

/-- Reading goes on inside the element of the shape `current`; `front` comes before it and `back`
behind it. -/
structure Inside (a : Assembly) (front : List Shape) (current : Shape) (back : List Shape) :
    Prop where
  shapes : a.template.shapes = front ++ current :: back
  enclosing : a.enclosing.head? = some front.length

/-- What does not change while the content of an element is read. -/
structure Around (a b : Assembly) : Prop where
  enclosing : b.enclosing = a.enclosing
  root : b.template.root = a.template.root
  warnings : b.warnings = a.warnings

theorem Around.refl (a : Assembly) : Around a a :=
  ⟨rfl, rfl, rfl⟩

theorem Around.trans {a b c : Assembly} (hab : Around a b) (hbc : Around b c) : Around a c :=
  ⟨hbc.enclosing.trans hab.enclosing, hbc.root.trans hab.root, hbc.warnings.trans hab.warnings⟩

section Inside

variable {a : Assembly} {front back : List Shape} {current : Shape} {content : String} {n : Nat}

theorem Inside.size_eq (h : a.Inside front current back) :
    a.template.elements.size = front.length + 1 + back.length := by
  rw [← Template.length_shapes, h.shapes, List.length_append, List.length_cons]
  omega

theorem Inside.enclosing_eq (h : a.Inside front current back) :
    ∃ outer, a.enclosing = front.length :: outer :=
  List.head?_eq_some_iff.1 h.enclosing

theorem Inside.element_eq (h : a.Inside front current back) :
    ∃ e, a.template.elements[front.length]? = some e ∧ e.tag = current.tag := by
  have hshape : a.template.shapes[front.length]? = some current := by
    rw [h.shapes]
    simp
  rw [Template.shapes, List.getElem?_map, Array.getElem?_toList] at hshape
  rcases Option.map_eq_some_iff.1 hshape with ⟨e, he, rfl⟩
  exact ⟨e, he, rfl⟩

theorem Inside.feed_text (h : a.Inside front current back) (hname : ElementName current.tag)
    (hliteral : Literal content) (size : Nat) (span : Span) :
    ∃ b, feed {} size a (.text content span) = .ok b ∧
      b.Inside front (current.extend [.text content]) back ∧ Around a b := by
  rcases h.enclosing_eq with ⟨outer, henclosing⟩
  rcases h.element_eq with ⟨e, he, htag⟩
  have hverbatim : ¬Tag.isVerbatim e.tag := htag ▸ hname.not_verbatim
  refine ⟨_, feed_literal henclosing he hverbatim hliteral, ⟨?_, h.enclosing⟩, ⟨rfl, rfl, rfl⟩⟩
  exact Template.shapes_modify (k := (·.extend [.text content]))
    (shape_withChild (.text content span)) h.shapes

theorem Inside.feed_opened (h : a.Inside front current back)
    (hn : front.length + 1 + back.length = n) (size : Nat) (name : String) (span : Span)
    (unary : Bool) :
    ∃ b, feed {} size a (.opened ⟨name, [], false, span⟩ unary) = .ok b ∧
      b.template.shapes = front ++ current.extend [.element n] :: (back ++ [⟨name, []⟩]) ∧
      b.enclosing = (if unary then a.enclosing else n :: a.enclosing) ∧
      b.template.root = a.template.root ∧ b.warnings = a.warnings := by
  rcases h.enclosing_eq with ⟨outer, henclosing⟩
  have hsize : a.template.elements.size = n := h.size_eq.trans hn
  refine ⟨_, feed_child henclosing unary, ?_, ?_, ?_, ?_⟩
  · -- The new element goes to the end, its number to the children of the current one.
    rw [enter_template, hsize]
    refine Template.shapes_modify (k := (·.extend [.element n]))
      (shape_withChild (.element n)) ?_
    simp [h.shapes, Element.shape, Element.plain]
  · simp [addChild, modify, hsize]
  · simp [addChild, modify, Template.push]
  · cases unary with
    | true => simp [addChild, modify, enter, extend]
    | false => simp [addChild, modify, enter, extend]

theorem Inside.closeElement_eq (h : a.Inside front current back)
    (hclosed : current.closed = current) (span : Span) :
    (a.closeElement span).template.shapes = a.template.shapes ∧
      (a.closeElement span).enclosing = a.enclosing.tail ∧
      (a.closeElement span).template.root = a.template.root ∧
      (a.closeElement span).warnings = a.warnings := by
  rcases h.enclosing_eq with ⟨outer, henclosing⟩
  rw [closeElement_of_cons henclosing]
  refine ⟨?_, by simp [modify, henclosing], rfl, rfl⟩
  rw [h.shapes]
  have hshapes := Template.shapes_modify (shape_closedAt span) h.shapes
  rwa [hclosed] at hshapes

/-- A void element is a child without content. -/
theorem Inside.feed_void (h : a.Inside front current back)
    (hn : front.length + 1 + back.length = n) (size : Nat) (name : String) (span : Span) :
    ∃ b, feed {} size a (.opened ⟨name, [], false, span⟩ true) = .ok b ∧
      b.Inside front (current.extend [.element n]) (back ++ [⟨name, []⟩]) ∧ Around a b := by
  rcases h.feed_opened hn size name span true with ⟨b, hb, hshapes, henclosing, hroot, hwarnings⟩
  rw [if_pos rfl] at henclosing
  refine ⟨b, hb, ⟨hshapes, ?_⟩, ⟨henclosing, hroot, hwarnings⟩⟩
  rw [henclosing]
  exact h.enclosing

/-- Any other element is a child with the content that is read between its tags. -/
theorem Inside.feed_element (h : a.Inside front current back)
    (hn : front.length + 1 + back.length = n) {size : Nat} {name : String} {inner : List Event}
    {children : List Item} {more : List Shape}
    (hclosed : Shape.closed ⟨name, children⟩ = ⟨name, children⟩)
    (hinner : ∀ {mid : Assembly},
      mid.Inside (front ++ current.extend [.element n] :: back) ⟨name, []⟩ [] →
      ∃ full, inner.foldlM (feed {} size) mid = .ok full ∧
        full.Inside (front ++ current.extend [.element n] :: back) ⟨name, children⟩ more ∧
        Around mid full) (span last : Span) :
    ∃ b, (.opened ⟨name, [], false, span⟩ false :: (inner ++ [.closed name last])).foldlM
        (feed {} size) a = .ok b ∧
      b.Inside front (current.extend [.element n]) (back ++ ⟨name, children⟩ :: more) ∧
      Around a b := by
  rcases h.feed_opened hn size name span false with
    ⟨mid, hmid, hshapes, henclosing, hroot, hwarnings⟩
  rw [if_neg Bool.false_ne_true] at henclosing
  -- The new element is the last one, so everything there was is its front.
  have hfront : (front ++ current.extend [.element n] :: back).length = n := by
    rw [List.length_append, List.length_cons]
    omega
  have hinside : mid.Inside (front ++ current.extend [.element n] :: back) ⟨name, []⟩ [] := by
    refine ⟨by simpa using hshapes, ?_⟩
    rw [henclosing, hfront, List.head?_cons]
  rcases hinner hinside with ⟨full, hfull, hinsideFull, haround⟩
  -- The end event leads back out, and changes nothing that a shape shows.
  rcases hinsideFull.closeElement_eq hclosed last with
    ⟨hshapesEnd, henclosingEnd, hrootEnd, hwarningsEnd⟩
  rw [haround.enclosing, henclosing, List.tail_cons] at henclosingEnd
  refine ⟨full.closeElement last, ?_, ⟨?_, ?_⟩, ⟨henclosingEnd, ?_, ?_⟩⟩
  · exact run_element hmid hfull name last
  · rw [hshapesEnd, hinsideFull.shapes]
    simp
  · rw [henclosingEnd]
    exact h.enclosing
  · rw [hrootEnd, haround.root, hroot]
  · rw [hwarningsEnd, haround.warnings, hwarnings]

end Inside

end Assembly

/-! ## Whole trees -/

namespace Markup

open Assembly

variable {parent : String} {kids ms : List Markup} {events : List Event} {size : Nat}

theorem Content.space_not_mem (h : Content parent kids) (id : ElementId) :
    .text " " ∉ items id kids := by
  induction h generalizing id with
  | nil => simp [items]
  | text hliteral _ _ ih =>
      have hne := hliteral.ne_space
      simp [items, ih, Ne.symm hne]
  | element _ _ _ _ _ ih => simp [items, ih]

/-- So nothing is taken off when the element is closed. -/
theorem Content.closed_eq (h : Content parent kids) (name : String) (id : ElementId) :
    Shape.closed ⟨name, items id kids⟩ = ⟨name, items id kids⟩ := by
  have hlast : (items id kids).getLast? ≠ some (.text " ") := by
    intro hlast
    exact h.space_not_mem id (List.mem_of_getLast? hlast)
  simp [Shape.closed, hlast]

/-- The events of trees are taken in as those trees: their children are added to the element
around them, and their elements to the end of the template. -/
theorem Spells.feed (h : Spells ms events) :
    ∀ {a : Assembly} {front back : List Shape} {current : Shape} {n : Nat},
      a.Inside front current back → front.length + 1 + back.length = n →
      ElementName current.tag → Content current.tag ms →
      ∃ b, events.foldlM (Assembly.feed {} size) a = .ok b ∧
        b.Inside front (current.extend (items n ms)) (back ++ allShapes n ms) ∧
        Around a b := by
  -- The shape around the trees changes along the way, so everything about it is generalised;
  -- `n` is always the number of the next element.
  induction h with
  | nil =>
      intro a front back current n hinside _ _ _
      refine ⟨a, rfl, ?_, .refl a⟩
      simpa [items, allShapes] using hinside
  | @text content span rest more _ ih =>
      intro a front back current n hinside hn hname hcontent
      cases hcontent with
      | text hliteral _ hcontent =>
          rcases hinside.feed_text hname hliteral size span with ⟨mid, hmid, hinside, haround⟩
          rcases ih hinside hn hname hcontent with ⟨b, hb, hinsideEnd, haroundEnd⟩
          refine ⟨b, foldlM_cons_eq_ok.2 ⟨mid, hmid, hb⟩, ?_, haround.trans haroundEnd⟩
          simpa [items, allShapes, shapes, count] using hinsideEnd
  | @void name span rest more _ _ ih =>
      intro a front back current n hinside hn hname hcontent
      cases hcontent with
      | element _ _ _ hcontent =>
          rcases hinside.feed_void hn size name span with ⟨mid, hmid, hinside, haround⟩
          have hnext : front.length + 1 + (back ++ [Shape.mk name []]).length = n + 1 := by
            rw [List.length_append, List.length_singleton]
            omega
          rcases ih hinside hnext hname hcontent with ⟨b, hb, hinsideEnd, haroundEnd⟩
          refine ⟨b, foldlM_cons_eq_ok.2 ⟨mid, hmid, hb⟩, ?_, haround.trans haroundEnd⟩
          simpa [items, allShapes, shapes, count, countAll] using hinsideEnd
  | @element name span last kids rest inner more _ _ _ ihkids ihrest =>
      intro a front back current n hinside hn hname hcontent
      cases hcontent with
      | element hholds _ hkids hcontent =>
          have hinner : ∀ {mid : Assembly},
              mid.Inside (front ++ current.extend [.element n] :: back) ⟨name, []⟩ [] →
              ∃ full, inner.foldlM (Assembly.feed {} size) mid = .ok full ∧
                full.Inside (front ++ current.extend [.element n] :: back)
                  ⟨name, items (n + 1) kids⟩ (allShapes (n + 1) kids) ∧ Around mid full := by
            intro mid hmid
            refine ihkids hmid ?_ hholds.elementName hkids
            rw [List.length_append, List.length_cons, List.length_nil]
            omega
          rcases hinside.feed_element hn (hkids.closed_eq name (n + 1)) hinner span last with
            ⟨mid, hmid, hinside, haround⟩
          -- The elements inside have their numbers right behind that of the element itself.
          have hnext : front.length + 1 +
              (back ++ Shape.mk name (items (n + 1) kids) :: allShapes (n + 1) kids).length =
                n + (countAll kids + 1) := by
            rw [List.length_append, List.length_cons, length_allShapes]
            omega
          rcases ihrest hinside hnext hname hcontent with ⟨b, hb, hinsideEnd, haroundEnd⟩
          refine ⟨b, ?_, ?_, haround.trans haroundEnd⟩
          · have happend := foldlM_append_eq_ok.2 ⟨mid, hmid, hb⟩
            simpa using happend
          · simpa [items, allShapes, shapes, count] using hinsideEnd

/-- The first element of a template. -/
theorem feed_first {name : String} (hslot : name ≠ "slot") (htemplate : name ≠ "template")
    (size : Nat) (span : Span) (unary : Bool) :
    ∃ a, Assembly.feed {} size {} (.opened ⟨name, [], false, span⟩ unary) = .ok a ∧
      a.template.shapes = [⟨name, []⟩] ∧ a.template.root = some 0 ∧ a.warnings = #[] ∧
      a.enclosing = if unary then [] else [0] := by
  refine ⟨_, feed_root rfl rfl unary, ?_⟩
  rw [addRoot_plain hslot htemplate]
  cases unary with
  | true => exact ⟨rfl, rfl, rfl, rfl⟩
  | false => exact ⟨rfl, rfl, rfl, rfl⟩

/-- The events of a document are taken in as that document. -/
theorem Document.feed {m : Markup} (h : m.Document) (hspells : Spells [m] events) :
    ∃ a, events.foldlM (Assembly.feed {} size) {} = .ok a ∧
      a.template.shapes = m.shapes 0 ∧ a.template.root = some 0 ∧ a.warnings = #[] := by
  cases h with
  | @element name kids hholds hcontent hslot htemplate =>
      cases hspells with
      | @void _ span _ _ _ hrest =>
          cases hrest
          rcases feed_first hslot htemplate size span true with
            ⟨a, ha, hshapes, hroot, hwarnings, _⟩
          refine ⟨a, foldlM_cons_eq_ok.2 ⟨a, ha, rfl⟩, ?_, hroot, hwarnings⟩
          rw [hshapes]
          simp [shapes, items, allShapes]
      | @element _ span last _ _ inner _ _ hkids hrest =>
          cases hrest
          rcases feed_first hslot htemplate size span false with
            ⟨first, hfirst, hshapes, hroot, hwarnings, henclosing⟩
          have hinside : first.Inside [] ⟨name, []⟩ [] := ⟨hshapes, by simp [henclosing]⟩
          rcases hkids.feed hinside rfl hholds.elementName hcontent with
            ⟨full, hfull, hinsideFull, haround⟩
          rcases hinsideFull.closeElement_eq (hcontent.closed_eq name 1) last with
            ⟨hshapesEnd, _, hrootEnd, hwarningsEnd⟩
          refine ⟨full.closeElement last, ?_, ?_, ?_, ?_⟩
          · exact run_element hfirst hfull name last
          · rw [hshapesEnd, hinsideFull.shapes]
            simp [shapes, Shape.extend]
          · rw [hrootEnd, haround.root, hroot]
          · rw [hwarningsEnd, haround.warnings, hwarnings]

end Markup

theorem parse_of_run {options : Options} {source : String} {a : Assembly}
    (h : (scan source).foldlM
      (Assembly.feed options (Text.byteLength source.toList)) {} = .ok a)
    (hroot : a.template.root ≠ none) :
    parse options source = .ok ⟨a.template, a.warnings.toList⟩ := by
  have hfinish : a.finish (Text.byteLength source.toList) = a := by
    unfold Assembly.finish
    split
    · next hnone => exact absurd hnone hroot
    · rfl
  unfold parse
  dsimp only
  rw [h]
  dsimp only
  rw [hfinish]

/-- A tree that is written and read again is the same tree: without any warning, the template
lists its elements in the order they open, with the same tags and with the same children. -/
theorem parse_source {m : Markup} (h : m.Document) :
    ∃ parsed, parse {} m.source = .ok parsed ∧ parsed.warnings = [] ∧
      parsed.template.root = some 0 ∧ parsed.template.shapes = m.shapes 0 := by
  rcases h.feed h.spells_scan with ⟨a, hrun, hshapes, hroot, hwarnings⟩
  refine ⟨_, parse_of_run hrun (by simp [hroot]), ?_, hroot, hshapes⟩
  simp [hwarnings]

/-- A list with an unclosed interpolation and a void element in it. -/
theorem parse_source_list :
    (Markup.element "ul" [.element "li" [.text "1 > 0"],
      .element "li" [.element "br" [], .text "\x7b\x7b a"]]).Document ∧
    ∃ parsed, parse {} "<ul><li>1 > 0</li><li><br>\x7b\x7b a</li></ul>" = .ok parsed ∧
      parsed.warnings = [] ∧ parsed.template.root = some 0 ∧
      parsed.template.shapes =
        [⟨"ul", [.element 1, .element 2]⟩, ⟨"li", [.text "1 > 0"]⟩,
          ⟨"li", [.element 3, .text "\x7b\x7b a"]⟩, ⟨"br", []⟩] := by
  -- Neither text has a closing brace.
  have hliteral : ∀ content : String, '<' ∉ content.toList → '&' ∉ content.toList →
      ¬content.toList.all Text.isBlank → '\x7d' ∉ content.toList → Markup.Literal content := by
    intro content htag hreference hblank hbrace
    refine ⟨htag, hreference, hblank, ?_⟩
    intro before body rest _ heq
    exact hbrace (by simp [heq])
  have hholds : ∀ name kids, Markup.ElementName name → ¬Tag.isVoid name →
      name.toLower ≠ "pre" → Markup.Holds name kids := by
    intro name kids hname hvoid hpre
    exact ⟨hname, fun h => absurd h hvoid, fun h => absurd h hpre⟩
  have hitem : ∀ kids, Markup.Holds "li" kids := fun kids =>
    hholds "li" kids (by decide +kernel) (by decide +kernel) (by decide +kernel)
  have hnumber : Markup.Content "li" [.text "1 > 0"] :=
    .text (hliteral _ (by decide) (by decide) (by decide) (by decide)) (by simp) .nil
  have hbreak : Markup.Content "li" [.element "br" [], .text "\x7b\x7b a"] :=
    .element ⟨by decide +kernel, by simp, by simp⟩ (by decide +kernel) .nil
      (.text (hliteral _ (by decide) (by decide) (by decide) (by decide)) (by simp) .nil)
  have hdocument : (Markup.element "ul" [.element "li" [.text "1 > 0"],
      .element "li" [.element "br" [], .text "\x7b\x7b a"]]).Document :=
    .element (hholds _ _ (by decide +kernel) (by decide +kernel) (by decide +kernel))
      (.element (hitem _) (by decide +kernel) hnumber
        (.element (hitem _) (by decide +kernel) hbreak .nil)) (by decide) (by decide)
  have hsource : (Markup.element "ul" [.element "li" [.text "1 > 0"],
      .element "li" [.element "br" [], .text "\x7b\x7b a"]]).source =
        "<ul><li>1 > 0</li><li><br>\x7b\x7b a</li></ul>" := by
    decide +kernel
  rcases parse_source hdocument with ⟨parsed, hparsed, hwarnings, hroot, hshapes⟩
  rw [hsource] at hparsed
  exact ⟨hdocument, parsed, hparsed, hwarnings, hroot, hshapes⟩

end TemplateMarkup
