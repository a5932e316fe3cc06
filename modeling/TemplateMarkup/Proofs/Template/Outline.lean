import TemplateMarkup.Proofs.Event.Outline
import TemplateMarkup.Proofs.Scan.Balance
import TemplateMarkup.Proofs.Template.Linking

/-!
# The outline of a template

A template is assembled from the events of its source, with a stack of its own and without a look
at the names of end events. What it ends up with is the outline of those events:

* `Assembly.feed_outline` — one event does the same to an assembly and to its outline,
* `Template.Ascent t id path` — following the parents from `id` visits `path` and ends,
* `parse_outline` — the elements of a parsed template are the start events of its source, with the
  parents and the spans that the nesting of the events gives them.
-/

namespace TemplateMarkup

namespace Element

def header (e : Element) : Header :=
  { tag := e.tag, parent := e.parent, span := e.span }

end Element

/-! ## Headers -/

namespace Template

/-- The headers of the elements, in order. -/
def headers (t : Template) : List Header :=
  t.elements.toList.map Element.header

@[simp] theorem length_headers (t : Template) : t.headers.length = t.elements.size := by
  simp [headers]

theorem getElem?_headers (t : Template) (id : ElementId) :
    t.headers[id]? = t.elements[id]?.map Element.header := by
  simp [headers]

@[simp] theorem headers_push (t : Template) (e : Element) :
    (t.push e).headers = t.headers ++ [e.header] := by
  simp [headers, push]

theorem headers_modify {f : Element → Element} {g : Header → Header}
    (hfg : ∀ e, (f e).header = g e.header) (t : Template) (id : ElementId) :
    (t.modify id f).headers = t.headers.modify id g :=
  map_modify hfg t id

/-- A change of anything else leaves the headers alone. -/
theorem headers_modify_eq {f : Element → Element} (hf : ∀ e, (f e).header = e.header)
    (t : Template) (id : ElementId) : (t.modify id f).headers = t.headers := by
  rw [headers_modify (g := fun h => h) hf]
  exact List.modify_id id t.headers

end Template

/-! ## Assembling builds the outline -/

namespace Assembly

variable {a b : Assembly} {id : ElementId} {e : Element} {options : Options} {size : Nat}

def outline (a : Assembly) : Outline :=
  { headers := a.template.headers, enclosing := a.enclosing }

theorem headers_dropText (a : Assembly) (parent : ElementId) :
    (a.dropText parent).template.headers = a.template.headers := by
  rw [dropText_template]
  exact Template.headers_modify_eq (f := withoutText) (fun _ => rfl) _ _

theorem headers_addBranch (a : Assembly) (head id : ElementId) (e : Element) :
    (a.addBranch head id e).template.headers = a.template.headers := by
  rw [addBranch_template]
  exact Template.headers_modify_eq (f := withBranch _) (fun _ => rfl) _ _

/-- Links are kept with children and directives, which no header shows. -/
theorem Links.headers_eq (h : Links a id e b) : b.template.headers = a.template.headers := by
  cases h with
  | root _ _ =>
      rw [addRoot_template]
      rfl
  | rootBranch _ _ _ _ =>
      rw [headers_addBranch, warnUnstable_template]
  | rootOrphan _ _ _ _ => rfl
  | secondRoot _ _ _ _ => rfl
  | laterRoot _ _ _ _ => rfl
  | branch _ _ _ _ => exact (headers_addBranch _ _ _ _).trans (headers_dropText _ _)
  | orphan _ _ _ => exact headers_dropText _ _
  | slot _ _ _ => exact Template.headers_modify_eq (f := withSlot _ _) (fun _ => rfl) _ _
  | child _ _ _ => exact Template.headers_modify_eq (f := withChild _) (fun _ => rfl) _ _

theorem openElement_outline {tag : StartTag} {unary : Bool}
    (h : a.openElement options tag unary = .ok b) :
    b.outline = a.outline.step (.opened tag unary) := by
  rcases openElement_eq_ok h with ⟨e, warnings, linked, hread, hlinks, rfl⟩
  rcases Element.ofStartTag_skeleton hread with ⟨branches, _, hskeleton⟩
  -- The header is a part of the skeleton.
  have hheader : e.header = ⟨tag.name, a.enclosing.head?, tag.span⟩ := by
    have htag := congrArg Element.Skeleton.tag hskeleton
    have hparent := congrArg Element.Skeleton.parent hskeleton
    have hspan := congrArg Element.Skeleton.span hskeleton
    simp only [Element.skeleton] at htag hparent hspan
    simp [Element.header, htag, hparent, hspan]
  simp [outline, Outline.step, hlinks.headers_eq, hlinks.enclosing_eq, hheader]

theorem closeElement_outline (a : Assembly) (name : String) (span : Span) :
    (a.closeElement span).outline = a.outline.step (.closed name span) := by
  cases henclosing : a.enclosing with
  | nil =>
      rw [closeElement_of_nil henclosing, Outline.step_closed_nil henclosing]
  | cons id outer =>
      have hheaders := Template.headers_modify (f := closedAt span)
        (g := fun h => { h with span := h.span.cover span }) (fun _ => rfl) a.template id
      have henclosing' : a.outline.enclosing = id :: outer := henclosing
      rw [closeElement_of_cons henclosing, Outline.step_closed_cons henclosing']
      simp [outline, hheaders]

theorem header_addText (options : Options) (text : String) (span : Span) (e : Element) :
    (addText options text span e).header = e.header := by
  unfold addText
  split
  · split <;> rfl
  · split <;> rfl

theorem readText_outline (options : Options) (size : Nat) (a : Assembly) (content : String)
    (span : Span) : (a.readText options size content span).outline = a.outline := by
  rcases readText_template options size a content span with hsame | ⟨parent, text, _, htext⟩
  · simp [outline, hsame]
  · have hheaders := Template.headers_modify_eq (header_addText options text span) a.template parent
    simp [outline, htext, hheaders]

/-- One event does the same to an assembly and to its outline. -/
theorem feed_outline {event : Event} (h : feed options size a event = .ok b) :
    b.outline = a.outline.step event := by
  cases event with
  | opened tag unary =>
      rw [feed_opened] at h
      exact openElement_outline h
  | closed name span =>
      rw [feed_closed] at h
      cases h
      exact closeElement_outline a name span
  | text content span =>
      rw [feed_text] at h
      cases h
      exact readText_outline options size a content span
  | warned warning =>
      rw [feed_warned] at h
      cases h
      rfl

theorem run_outline {events : List Event} (h : events.foldlM (feed options size) a = .ok b) :
    b.outline = a.outline.run events := by
  induction events generalizing a with
  | nil =>
      cases h
      rfl
  | cons event events ih =>
      rcases foldlM_cons_eq_ok.1 h with ⟨next, hnext, hrest⟩
      rw [ih hrest, feed_outline hnext]
      rfl

end Assembly

variable {options : Options} {source : String} {parsed : Parsed}

/-- A parse is a run over the events of its source. -/
theorem parse_eq_ok (h : parse options source = .ok parsed) :
    ∃ a, (scan source).foldlM
        (Assembly.feed options (Text.byteLength source.toList)) {} = .ok a ∧
      parsed.template = a.template ∧
      parsed.warnings = (a.finish (Text.byteLength source.toList)).warnings.toList := by
  unfold parse at h
  dsimp only at h
  split at h
  · cases h
  · next a hrun =>
      cases h
      exact ⟨a, hrun, Assembly.finish_template _ a, rfl⟩

theorem parse_headers (h : parse options source = .ok parsed) :
    parsed.template.headers = (Outline.ofEvents (scan source)).headers := by
  rcases parse_eq_ok h with ⟨a, hrun, htemplate, _⟩
  rw [htemplate]
  exact congrArg Outline.headers (Assembly.run_outline hrun)

/-! ## Ancestors -/

namespace Template

variable {t : Template} {id : ElementId} {path : List ElementId}

/-- Following the links to parents from `id` visits the elements of `path` and then ends. -/
inductive Ascent (t : Template) : ElementId → List ElementId → Prop where
  | top {id : ElementId} {e : Element} :
      t.elements[id]? = some e → e.parent = none → Ascent t id [id]
  | up {id parent : ElementId} {e : Element} {path : List ElementId} :
      t.elements[id]? = some e → e.parent = some parent → Ascent t parent path →
      Ascent t id (id :: path)

/-- Where parents come first, the list of ancestors is the whole ascent. -/
theorem Ascent.ancestors_eq (h : Ascent t id path)
    (hparent : ∀ {id parent : ElementId} {e : Element},
      t.elements[id]? = some e → e.parent = some parent → parent < id) :
    t.ancestors id = path := by
  induction h with
  | top he hnone =>
      rw [ancestors]
      simp [he, hnone]
  | up he hsome _ ih =>
      rw [ancestors]
      simp [he, hsome, hparent he hsome, ih]

end Template

theorem parse_parent_lt (h : parse options source = .ok parsed) {id parent : ElementId}
    {e : Element} (he : parsed.template.elements[id]? = some e)
    (hparent : e.parent = some parent) : parent < id := by
  have hheader : (Outline.ofEvents (scan source)).headers[id]? = some e.header := by
    rw [← parse_headers h, Template.getElem?_headers, he]
    rfl
  exact (Outline.ordered_ofEvents _).parent_lt hheader hparent

section Start

variable {before after : List Event} {opens : List Event.Numbered} {tag : StartTag}

/-- The element of a unary start event. -/
theorem parse_unary (h : parse options source = .ok parsed)
    (hscan : scan source = before ++ .opened tag true :: after)
    (hopens : Event.Enclosing before opens) :
    ∃ e, parsed.template.elements[Event.startCount before]? = some e ∧
      e.header = ⟨tag.name, opens.head?.map (·.1), tag.span⟩ := by
  have hheader := Outline.header_unary hopens tag after
  rw [← hscan, ← parse_headers h, Template.getElem?_headers] at hheader
  exact Option.map_eq_some_iff.1 hheader

/-- The element of any other start event, and its end event. -/
theorem parse_matched (h : parse options source = .ok parsed)
    (hscan : scan source = before ++ .opened tag false :: after)
    (hopens : Event.Enclosing before opens) :
    ∃ e inside span rest,
      parsed.template.elements[Event.startCount before]? = some e ∧
      after = inside ++ .closed tag.name span :: rest ∧ Event.Balanced inside ∧
      e.header = ⟨tag.name, opens.head?.map (·.1), tag.span.cover span⟩ := by
  have hreplay := (reads_scan source).replay
  rw [hscan] at hreplay
  -- Behind the start event its name is on top of the stack, so the replay has to close it.
  rcases Event.exists_enclosing hreplay with ⟨_, _, hafter⟩
  rcases Event.replay?_split hafter with ⟨inside, span, rest, rfl, hinside, _⟩
  have hheader := Outline.header_element hopens tag hinside tag.name span rest
  rw [← hscan, ← parse_headers h, Template.getElem?_headers] at hheader
  rcases Option.map_eq_some_iff.1 hheader with ⟨e, he, heq⟩
  exact ⟨e, inside, span, rest, he, rfl, hinside, heq⟩

theorem parse_parent (h : parse options source = .ok parsed) {unary : Bool}
    (hscan : scan source = before ++ .opened tag unary :: after)
    (hopens : Event.Enclosing before opens) :
    ∃ e, parsed.template.elements[Event.startCount before]? = some e ∧
      e.parent = opens.head?.map (·.1) := by
  cases unary with
  | true =>
      rcases parse_unary h hscan hopens with ⟨e, he, hheader⟩
      exact ⟨e, he, congrArg Header.parent hheader⟩
  | false =>
      rcases parse_matched h hscan hopens with ⟨e, _, _, _, he, _, _, hheader⟩
      exact ⟨e, he, congrArg Header.parent hheader⟩

/-- The parents of an element are the elements open at its start event. -/
theorem parse_ascent (h : parse options source = .ok parsed)
    (hopens : Event.Enclosing before opens) {unary : Bool}
    (hscan : scan source = before ++ .opened tag unary :: after) :
    parsed.template.Ascent (Event.startCount before)
      (Event.startCount before :: opens.map (·.1)) := by
  induction hopens generalizing tag unary after with
  | outermost hbalanced =>
      rcases parse_parent h hscan (.outermost hbalanced) with ⟨e, he, hparent⟩
      exact .top he hparent
  | @inside outer inner opens outerTag houter hinner ih =>
      -- One level up, the same source is split at the start event of the parent.
      rcases parse_parent h hscan (.inside houter hinner) with ⟨e, he, hparent⟩
      have hscan' : scan source =
          outer ++ .opened outerTag false :: (inner ++ .opened tag unary :: after) := by
        simpa using hscan
      exact .up he hparent (ih hscan')

/-- What the elements open at a start event are to the element of that event. -/
theorem parse_around (h : parse options source = .ok parsed) {unary : Bool} {e : Element}
    (hscan : scan source = before ++ .opened tag unary :: after)
    (he : parsed.template.elements[Event.startCount before]? = some e)
    (hopens : Event.Enclosing before opens) :
    e.parent = opens.head?.map (·.1) ∧
      parsed.template.Ascent (Event.startCount before)
        (Event.startCount before :: opens.map (·.1)) ∧
      parsed.template.ancestors (Event.startCount before) =
        Event.startCount before :: opens.map (·.1) := by
  have hascent := parse_ascent h hopens hscan
  rcases parse_parent h hscan hopens with ⟨e', he', hparent⟩
  -- Both elements have the same number.
  rw [he] at he'
  cases he'
  exact ⟨hparent, hascent, hascent.ancestors_eq (parse_parent_lt h)⟩

end Start

/-- A parsed template has one element for each start event of its source. Its tag is that of the
event, its parent is the innermost start event that is open there, and its span is that of the
start tag or, unless the element is unary, reaches to the end event that matches. The ancestors
are all start events that are open there. -/
theorem parse_outline (h : parse options source = .ok parsed) :
    parsed.template.elements.size = Event.startCount (scan source) ∧
    ∀ before tag unary after, scan source = before ++ .opened tag unary :: after →
      ∃ e, parsed.template.elements[Event.startCount before]? = some e ∧
        e.tag = tag.name ∧
        (unary = true → e.span = tag.span) ∧
        (unary = false → ∃ inside span rest,
          after = inside ++ .closed tag.name span :: rest ∧ Event.Balanced inside ∧
          e.span = tag.span.cover span) ∧
        (∃ opens, Event.Enclosing before opens) ∧
        ∀ opens, Event.Enclosing before opens →
          e.parent = opens.head?.map (·.1) ∧
          parsed.template.Ascent (Event.startCount before)
            (Event.startCount before :: opens.map (·.1)) ∧
          parsed.template.ancestors (Event.startCount before) =
            Event.startCount before :: opens.map (·.1) := by
  have hsize : parsed.template.elements.size = Event.startCount (scan source) := by
    rw [← Template.length_headers, parse_headers h, Outline.length_headers_ofEvents]
  refine ⟨hsize, ?_⟩
  intro before tag unary after hscan
  have hreplay := (reads_scan source).replay
  rw [hscan] at hreplay
  rcases Event.exists_enclosing hreplay with ⟨opens, hopens, _⟩
  cases unary with
  | true =>
      rcases parse_unary h hscan hopens with ⟨e, he, hheader⟩
      refine ⟨e, he, congrArg Header.tag hheader, fun _ => congrArg Header.span hheader, by simp,
        ⟨opens, hopens⟩, ?_⟩
      intro opens' hopens'
      exact parse_around h hscan he hopens'
  | false =>
      rcases parse_matched h hscan hopens with
        ⟨e, inside, span, rest, he, hafter, hinside, hheader⟩
      have hspan : e.span = tag.span.cover span := congrArg Header.span hheader
      refine ⟨e, he, congrArg Header.tag hheader, by simp,
        fun _ => ⟨inside, span, rest, hafter, hinside, hspan⟩, ⟨opens, hopens⟩, ?_⟩
      intro opens' hopens'
      exact parse_around h hscan he hopens'

/-- In an unclosed list item, a line break has the item and the list as its ancestors. -/
theorem parse_outline_unclosed_item :
    ∃ parsed, parse {} "<ul><li>a<br></ul>" = .ok parsed ∧
      parsed.template.elements.size = 3 ∧ parsed.template.ancestors 2 = [2, 1, 0] := by
  have hok : (parse {} "<ul><li>a<br></ul>").isOk = true := by decide +kernel
  cases h : parse {} "<ul><li>a<br></ul>" with
  | error error => simp [h, Except.isOk, Except.toBool] at hok
  | ok parsed =>
      have hscan : scan "<ul><li>a<br></ul>" =
          ([.opened ⟨"ul", [], false, ⟨0, 4⟩⟩ false] ++
            .opened ⟨"li", [], false, ⟨4, 8⟩⟩ false :: [.text "a" ⟨8, 9⟩]) ++
          .opened ⟨"br", [], false, ⟨9, 13⟩⟩ true ::
            [.warned ⟨.missingEndTag "li", ⟨4, 8⟩⟩, .closed "li" ⟨13, 18⟩,
              .closed "ul" ⟨13, 18⟩] := by
        decide +kernel
      rcases parse_outline h with ⟨hsize, hstart⟩
      rcases hstart _ _ _ _ hscan with ⟨_, _, _, _, _, _, haround⟩
      have hitem := haround _ (.inside (.inside (.outermost .nil) .nil) (.text .nil))
      refine ⟨parsed, rfl, ?_, hitem.2.2⟩
      rw [hsize, hscan]
      rfl

end TemplateMarkup
