import TemplateMarkup.Proofs.Template.Layout
import TemplateMarkup.Proofs.Template.Warnings
import TemplateMarkup.Proofs.Text.Trimming

/-!
# What becomes of a text

A run of text becomes a node of the element it stands in. Later that node may be taken off again:
an else branch drops the text in front of it, and an end tag the space. This file follows the texts
with one span through the assembly:

* `Template.textsAt`, `Assembly.drops` — the nodes with the span, and the warnings about dropped
  text that have it,
* `Assembly.Moves` — nodes are only taken off the end of an element, and reported but for spaces,
* `Assembly.feed_moves` — this is all that an event does to the texts of others,
* `parse_texts` — so a text ends up as one node or as one warning.
-/

namespace TemplateMarkup

/-! ## Texts -/

namespace Node

/-- The text of a node that is text. -/
def content? : Node → Option String
  | .element _ => none
  | .expression _ content _ => some content
  | .text content _ => some content

end Node

namespace Warning

/-- The warnings about dropped text that have the span. -/
def dropsAt (span : Span) (warnings : List Warning) : List Warning :=
  warnings.filter fun w => w.isDrop && w.span = span

theorem dropsAt_append (span : Span) (warnings more : List Warning) :
    dropsAt span (warnings ++ more) = dropsAt span warnings ++ dropsAt span more :=
  List.filter_append warnings more

end Warning

/-- An event that is neither a text with the span nor a warning about dropped text. -/
def Event.Foreign (span : Span) (event : Event) : Prop :=
  (∀ content, event ≠ .text content span) ∧ event.isDrop = false

/-- The text that `content` stands for inside an element. -/
def Tag.decode (tag content : String) : String :=
  if isVerbatim tag then content else String.ofList (Reference.decodeText content.toList)

namespace Assembly

variable {n : Node} {w : Warning}

theorem isDrop_of_droppedText (h : droppedText n = some w) : w.isDrop = true := by
  unfold droppedText at h
  split at h
  · cases h
  · cases h
    rfl
  · split at h
    · cases h
    · cases h
      rfl

theorem droppedText_of_isSpace (h : n.isSpace) : droppedText n = none := by
  cases n with
  | element id => rfl
  | expression parsed text span => simp [Node.isSpace, Node.literal?] at h
  | text content span =>
      have hspace : content = " " := by simpa [Node.isSpace, Node.literal?] using h
      simp [droppedText, hspace]

end Assembly

namespace Element

variable {span : Span} {e e' : Element}

/-- The texts of an element that have the span. -/
def textsAt (span : Span) (e : Element) : List Node :=
  e.children.toList.filter (·.textSpan? = some span)

theorem textsAt_eq_of (h : e'.children = e.children) : e'.textsAt span = e.textsAt span := by
  rw [textsAt, h, textsAt]

theorem textsAt_append {more : List Node}
    (h : e'.children.toList = e.children.toList ++ more) :
    e'.textsAt span = e.textsAt span ++ more.filter (·.textSpan? = some span) := by
  rw [textsAt, h, List.filter_append, textsAt]

end Element

namespace Template

variable {t : Template} {span : Span} {f : Element → Element}

/-- The texts of the element `id` that have the span. -/
def textsAt (t : Template) (span : Span) (id : ElementId) : List Node :=
  (t.elements[id]?.map (Element.textsAt span)).getD []

theorem textsAt_of_getElem? {id : ElementId} {e : Element} (h : t.elements[id]? = some e) :
    t.textsAt span id = e.textsAt span := by
  simp [textsAt, h]

theorem textsAt_modify_ne {p i : ElementId} (hi : i ≠ p) :
    (t.modify p f).textsAt span i = t.textsAt span i := by
  simp [textsAt, getElem?_modify, Ne.symm hi]

theorem textsAt_modify_eq (hf : ∀ e, (f e).textsAt span = e.textsAt span) (p i : ElementId) :
    (t.modify p f).textsAt span i = t.textsAt span i := by
  rw [textsAt, map_getElem?_modify hf, textsAt]

theorem textsAt_modify_self {p : ElementId} {e : Element} (h : t.elements[p]? = some e) :
    (t.modify p f).textsAt span p = (f e).textsAt span :=
  textsAt_of_getElem? (by simp [getElem?_modify, h])

theorem textsAt_push {e : Element} (he : e.children = #[]) (i : ElementId) :
    (t.push e).textsAt span i = t.textsAt span i := by
  unfold textsAt
  rw [push, Array.getElem?_push]
  split
  · next hi =>
      subst hi
      simp [Element.textsAt, he]
  · rfl

end Template

/-! ## Moving texts -/

namespace Assembly

variable {a b c : Assembly} {span : Span} {e : Element} {id p : ElementId} {options : Options}
  {size : Nat} {event : Event} {events : List Event}

def drops (a : Assembly) (span : Span) : List Warning :=
  Warning.dropsAt span a.warnings.toList

/-- Neither the texts with the span nor the warnings about them change. -/
structure Same (span : Span) (a b : Assembly) : Prop where
  texts : ∀ i, b.template.textsAt span i = a.template.textsAt span i
  drops : b.drops span = a.drops span

/-- Texts with the span are taken off the end of one element, and reported unless they are
spaces. -/
def Moves (span : Span) (a b : Assembly) : Prop :=
  ∃ id kept moved, a.template.textsAt span id = kept ++ moved ∧
    (∀ i, b.template.textsAt span i = if i = id then kept else a.template.textsAt span i) ∧
    b.drops span = a.drops span ++ moved.reverse.filterMap droppedText

theorem Same.trans (h : Same span a b) (h' : Same span b c) : Same span a c :=
  ⟨fun i => (h'.texts i).trans (h.texts i), h'.drops.trans h.drops⟩

theorem Same.moves (h : Same span a b) : Moves span a b := by
  refine ⟨0, a.template.textsAt span 0, [], by simp, fun i => ?_, by simp [h.drops]⟩
  rw [h.texts]
  split
  · next hi => rw [hi]
  · rfl

theorem Same.trans_moves (h : Same span a b) (h' : Moves span b c) : Moves span a c := by
  rcases h' with ⟨id, kept, moved, hold, hnew, hdrops⟩
  refine ⟨id, kept, moved, h.texts id ▸ hold, fun i => ?_, h.drops ▸ hdrops⟩
  rw [hnew, h.texts]

theorem Moves.trans_same (h : Moves span a b) (h' : Same span b c) : Moves span a c := by
  rcases h with ⟨id, kept, moved, hold, hnew, hdrops⟩
  exact ⟨id, kept, moved, hold, fun i => (h'.texts i).trans (hnew i), h'.drops.trans hdrops⟩

theorem Reports.drops_eq (h : Reports (·.isDrop = false) a b) (span : Span) :
    b.drops span = a.drops span := by
  rcases h with ⟨more, hmore, hall⟩
  have hnone : Warning.dropsAt span more = [] := by
    rw [Warning.dropsAt, List.filter_eq_nil_iff]
    intro w hw
    simp [hall w hw]
  rw [drops, hmore, Warning.dropsAt_append, hnone, List.append_nil, drops]

theorem same_of_reports (h : Reports (·.isDrop = false) a b)
    (htexts : ∀ i, b.template.textsAt span i = a.template.textsAt span i) : Same span a b :=
  ⟨htexts, h.drops_eq span⟩

/-- Texts are moved when the last children of one element are taken off and reported. -/
theorem moves_of_modify {f : Element → Element} {rest : List Node}
    (hp : a.template.elements[p]? = some e)
    (hchildren : e.children.toList = (f e).children.toList ++ rest)
    (htemplate : b.template = a.template.modify p f)
    (hdrops : b.drops span = a.drops span ++
      (rest.filter (·.textSpan? = some span)).reverse.filterMap droppedText) :
    Moves span a b := by
  refine ⟨p, (f e).textsAt span, rest.filter (·.textSpan? = some span), ?_, fun i => ?_, hdrops⟩
  · rw [Template.textsAt_of_getElem? hp]
    exact Element.textsAt_append hchildren
  · rw [htemplate]
    split
    · next hi =>
        rw [hi]
        exact Template.textsAt_modify_self hp
    · next hi => exact Template.textsAt_modify_ne hi

/-! ## What drops text -/

/-- The warnings about dropped nodes that have the span are those about the nodes that have it. -/
theorem dropsAt_filterMap_droppedText (nodes : List Node) (span : Span) :
    Warning.dropsAt span (nodes.filterMap droppedText) =
      (nodes.filter (·.textSpan? = some span)).filterMap droppedText := by
  unfold Warning.dropsAt
  induction nodes with
  | nil => rfl
  | cons n nodes ih =>
      cases hdropped : droppedText n with
      | none =>
          rw [List.filterMap_cons_none hdropped, ih, List.filter_cons]
          split
          · rw [List.filterMap_cons_none hdropped]
          · rfl
      | some w =>
          have hspan := span_of_droppedText hdropped
          have hdrop := isDrop_of_droppedText hdropped
          rw [List.filterMap_cons_some hdropped, List.filter_cons, List.filter_cons, ih]
          by_cases heq : w.span = span
          · simp [hspan, hdrop, heq, List.filterMap_cons_some hdropped]
          · simp [hspan, heq]

theorem moves_dropText (a : Assembly) (p : ElementId) (span : Span) :
    Moves span a (a.dropText p) := by
  cases hp : a.template.elements[p]? with
  | none =>
      have hsame : a.dropText p = a := by
        unfold dropText
        rw [hp]
      rw [hsame]
      exact Same.moves ⟨fun _ => rfl, rfl⟩
  | some e =>
      refine moves_of_modify hp (children_eq_withoutText_append e) (dropText_template a p) ?_
      rw [drops, warnings_dropText hp, Warning.dropsAt_append, dropsAt_filterMap_droppedText,
        List.filter_reverse, List.reverse_reverse, drops]

theorem moves_closeElement (a : Assembly) (closing span : Span) :
    Moves span a (a.closeElement closing) := by
  cases henclosing : a.enclosing with
  | nil =>
      rw [closeElement_of_nil henclosing]
      exact Same.moves ⟨fun _ => rfl, rfl⟩
  | cons id outer =>
      have hdrops := (reports_closeElement a closing).drops_eq span
      rw [closeElement_of_cons henclosing] at hdrops ⊢
      cases he : a.template.elements[id]? with
      | none =>
          refine Same.moves ⟨fun i => ?_, hdrops⟩
          exact congrArg (fun t => Template.textsAt t span i) (Template.modify_of_none he)
      | some e =>
          rcases children_eq_closedAt_append closing e with ⟨rest, hrest, hspace⟩
          refine moves_of_modify he hrest rfl ?_
          -- A space goes without a warning.
          have hsilent : (rest.filter (·.textSpan? = some span)).reverse.filterMap droppedText =
              [] := by
            rw [List.filterMap_eq_nil_iff]
            intro n hn
            have hmem := (List.mem_filter.1 (List.mem_reverse.1 hn)).1
            exact droppedText_of_isSpace (hspace n hmem)
          rw [hsilent, List.append_nil]
          exact hdrops

/-! ## What keeps text -/

/-- Once the text in front of it is dropped, linking an element leaves all texts alone. -/
theorem Links.same (h : Links a id e b) : Same span (a.cleared e) b := by
  refine same_of_reports h.reports fun i => ?_
  have hbranch : ∀ {t : Template} {head : ElementId} {branch : Branch},
      (t.modify head (withBranch branch)).textsAt span i = t.textsAt span i :=
    Template.textsAt_modify_eq (f := withBranch _) (fun _ => rfl) _ _
  cases h with
  | root henclosing _ =>
      rw [cleared_of_nil henclosing, addRoot_template]
      rfl
  | rootBranch henclosing _ _ _ =>
      rw [cleared_of_nil henclosing, addBranch_template, hbranch, warnUnstable_template]
  | rootOrphan henclosing _ _ _ =>
      rw [cleared_of_nil henclosing]
      rfl
  | secondRoot henclosing _ _ _ =>
      rw [cleared_of_nil henclosing]
      rfl
  | laterRoot henclosing _ _ _ => rw [cleared_of_nil henclosing]
  | branch henclosing hmarked _ _ =>
      rw [cleared_of_isBranch henclosing hmarked, addBranch_template, hbranch]
  | orphan henclosing hmarked _ =>
      rw [cleared_of_isBranch henclosing hmarked]
      rfl
  | slot _ hmarked _ =>
      rw [cleared_of_not_isBranch hmarked, addSlot_template]
      exact Template.textsAt_modify_eq (f := withSlot _ _) (fun _ => rfl) _ _
  | child _ hmarked _ =>
      rw [cleared_of_not_isBranch hmarked, addChild_template]
      refine Template.textsAt_modify_eq (f := withChild (.element id)) (fun e => ?_) _ _
      have happend : (withChild (.element id) e).children.toList =
          e.children.toList ++ [.element id] := by
        simp [withChild]
      rw [Element.textsAt_append happend]
      simp [Node.textSpan?]

theorem moves_cleared (a : Assembly) (e : Element) (span : Span) :
    Moves span a (a.cleared e) := by
  unfold cleared
  split
  · exact Same.moves ⟨fun _ => rfl, rfl⟩
  · split
    · exact moves_dropText a _ span
    · exact Same.moves ⟨fun _ => rfl, rfl⟩

theorem moves_openElement {tag : StartTag} {unary : Bool}
    (h : a.openElement options tag unary = .ok b) : Moves span a b := by
  rcases openElement_eq_ok h with ⟨e, warnings, linked, hread, hlinks, rfl⟩
  rcases Element.ofStartTag_skeleton hread with ⟨_, _, hskeleton⟩
  have hchildren : e.children = #[] := congrArg Element.Skeleton.children hskeleton
  have hextend : Same span a (a.extend e warnings) :=
    same_of_reports (reports_append (Element.ofStartTag_isDrop hread) rfl)
      (Template.textsAt_push hchildren)
  have henter : Same span linked (linked.enter unary a.template.elements.size) := by
    refine same_of_reports (reports_enter _ _ _) fun i => ?_
    rw [enter_template]
  exact hextend.trans_moves ((moves_cleared _ e span).trans_same (hlinks.same.trans henter))

/-- A text with another span is none of those with this one. -/
theorem same_readText {content : String} {other : Span} (hother : other ≠ span) :
    Same span a (a.readText options size content other) := by
  refine same_of_reports (reports_readText options size a content other) fun i => ?_
  rcases readText_template options size a content other with hsame | ⟨p, text, _, htext⟩
  · rw [hsame]
  · rw [htext]
    refine Template.textsAt_modify_eq (fun e => ?_) _ _
    rcases addText_children options text other e with hsame | ⟨n, hn, hmore⟩
    · exact Element.textsAt_eq_of hsame
    · rw [Element.textsAt_append hmore]
      simp [hn, hother]

/-- What an event can do to the texts of others. -/
theorem feed_moves (h : feed options size a event = .ok b)
    (hother : ∀ content, event ≠ .text content span) (hdrop : event.isDrop = false) :
    Moves span a b := by
  cases event with
  | opened tag unary =>
      rw [feed_opened] at h
      exact moves_openElement h
  | closed name closing =>
      rw [feed_closed] at h
      cases h
      exact moves_closeElement a closing span
  | text content other =>
      rw [feed_text] at h
      cases h
      exact (same_readText fun heq => hother content (by rw [heq])).moves
  | warned warning =>
      rw [feed_warned] at h
      cases h
      have hreports : Reports (·.isDrop = false) a
          { a with warnings := a.warnings.push warning } :=
        ⟨[warning], by simp, fun w hw => List.mem_singleton.1 hw ▸ hdrop⟩
      exact (same_of_reports hreports fun _ => rfl).moves

/-! ## The way of one text -/

/-- The texts with the span, by element, and the warnings about them. -/
structure Holds (span : Span) (texts : ElementId → List Node) (drops : List Warning)
    (a : Assembly) : Prop where
  texts_eq : ∀ i, a.template.textsAt span i = texts i
  drops_eq : a.drops span = drops

/-- The text `n` is a child of the element `p`, or it has been dropped with the warning `w`. -/
def Settled (span : Span) (p : ElementId) (n : Node) (w : Warning) (a : Assembly) : Prop :=
  a.Holds span (fun i => if i = p then [n] else []) [] ∨ a.Holds span (fun _ => []) [w]

theorem Moves.gone {drops : List Warning} (h : Moves span a b)
    (ha : a.Holds span (fun _ => []) drops) : b.Holds span (fun _ => []) drops := by
  rcases h with ⟨id, kept, moved, hold, hnew, hdrops⟩
  rw [ha.texts_eq] at hold
  obtain ⟨rfl, rfl⟩ := List.append_eq_nil_iff.1 hold.symm
  refine ⟨fun i => ?_, ?_⟩
  · rw [hnew, ha.texts_eq]
    split <;> rfl
  · rw [hdrops, ha.drops_eq]
    exact List.append_nil drops

/-- A text that is a child stays one or is dropped, and a text that is dropped stays so. -/
theorem Moves.settled {n : Node} {w : Warning} (h : Moves span a b) (hw : droppedText n = some w)
    (ha : a.Settled span p n w) : b.Settled span p n w := by
  rcases ha with ha | ha
  · rcases h with ⟨id, kept, moved, hold, hnew, hdrops⟩
    rw [ha.texts_eq] at hold
    rw [ha.drops_eq, List.nil_append] at hdrops
    by_cases hid : id = p
    · subst hid
      rw [if_pos rfl] at hold
      rcases List.append_eq_singleton_iff.1 hold.symm with ⟨rfl, rfl⟩ | ⟨rfl, rfl⟩
      · -- The text is taken off.
        refine .inr ⟨fun i => ?_, by simpa [hw] using hdrops⟩
        rw [hnew, ha.texts_eq]
        split <;> rfl
      · refine .inl ⟨fun i => ?_, by simpa using hdrops⟩
        rw [hnew, ha.texts_eq]
        split <;> rfl
    · -- There is none to take off from another element.
      rw [if_neg hid] at hold
      obtain ⟨rfl, rfl⟩ := List.append_eq_nil_iff.1 hold.symm
      refine .inl ⟨fun i => ?_, by simpa using hdrops⟩
      rw [hnew, ha.texts_eq]
      split
      · next hi => rw [hi, if_neg hid]
      · rfl
  · exact .inr (h.gone ha)

/-- What is kept when texts are moved is kept by a run over foreign events. -/
theorem moves_invariant {P : Assembly → Prop}
    (hmoves : ∀ {a b : Assembly}, Moves span a b → P a → P b)
    (hrun : events.foldlM (feed options size) a = .ok b)
    (hforeign : ∀ event ∈ events, event.Foreign span) (ha : P a) : P b :=
  foldlM_invariant_of_mem
    (fun hevent hfeed => hmoves (feed_moves hfeed (hforeign _ hevent).1 (hforeign _ hevent).2))
    hrun ha

/-! ## The text itself -/

theorem textIn?_of_not_blank {content : String} (h : ¬content.toList.all Text.isBlank)
    (options : Options) (e : Element) :
    textIn? options e content = some (Tag.decode e.tag content) := by
  unfold textIn? Tag.decode
  rw [if_neg h]
  split <;> rfl

/-- A text other than a space is added as a node that would not be dropped silently. -/
theorem addText_of_ne {text : String} (htext : text ≠ " ") (options : Options) (span : Span)
    (e : Element) :
    ∃ n w, n.content? = some text ∧ n.textSpan? = some span ∧ droppedText n = some w ∧
      (addText options text span e).children.toList = e.children.toList ++ [n] := by
  unfold addText
  rw [if_neg htext]
  split
  · exact ⟨_, _, rfl, rfl, rfl, Array.toList_push⟩
  · exact ⟨.text text span, _, rfl, rfl, if_neg htext, Array.toList_push⟩

/-- A text inside an element becomes a child of it. -/
theorem settled_readText (options : Options) (size : Nat) {content : String}
    {outer : List ElementId} (henclosing : a.enclosing = p :: outer)
    (he : a.template.elements[p]? = some e) (hblank : ¬content.toList.all Text.isBlank)
    (htext : Tag.decode e.tag content ≠ " ")
    (ha : a.Holds span (fun _ => []) []) :
    ∃ n w, n.content? = some (Tag.decode e.tag content) ∧ droppedText n = some w ∧
      (a.readText options size content span).Settled span p n w := by
  rcases addText_of_ne htext options span e with ⟨n, w, hcontent, hspan, hw, hchildren⟩
  refine ⟨n, w, hcontent, hw, .inl ⟨fun i => ?_, ?_⟩⟩
  · have hread : (a.readText options size content span).template =
        a.template.modify p (addText options (Tag.decode e.tag content) span) := by
      unfold readText
      rw [henclosing]
      simp only [he, Option.bind_some, textIn?_of_not_blank hblank]
      rfl
    rw [hread]
    split
    · next hi =>
        rw [hi, Template.textsAt_modify_self he, Element.textsAt_append hchildren,
          ← Template.textsAt_of_getElem? he, ha.texts_eq]
        simp [hspan]
    · next hi => rw [Template.textsAt_modify_ne hi, ha.texts_eq]
  · rw [(reports_readText options size a content span).drops_eq, ha.drops_eq]

/-! ## Text outside all elements -/

/-- Text outside all elements is reported, unless it is all there is. -/
theorem readText_of_nil (options : Options) (size : Nat) (span : Span) {content : String}
    (henclosing : a.enclosing = []) (hblank : ¬content.toList.all Text.isBlank) :
    (∃ text, ⟨.textOutsideRoot text, span⟩ ∈
        (a.readText options size content span).warnings.toList) ∨
      (a.template.root = none ∧ Text.byteLength content.toList = size) := by
  unfold readText
  rw [henclosing]
  dsimp only
  unfold textOutside
  dsimp only
  split
  · next hcases =>
      rcases hcases with hnil | hall
      · exact absurd (List.all_eq_true.2 (Text.trim_eq_nil_iff.1 hnil)) hblank
      · exact .inr hall
  · exact .inl ⟨String.ofList (Text.trim content.toList), by simp [warn]⟩

theorem Treelike.root_eq_none_iff (ha : a.Treelike) :
    a.template.root = none ↔ a.template.elements.size = 0 := by
  rcases ha.root with ⟨hnone, hsize⟩ | ⟨hsome, hzero⟩
  · simp [hnone, hsize]
  · have hne : a.template.elements.size ≠ 0 := by
      intro hsize
      rw [Template.parentAt_eq_none_iff.2 (Nat.le_of_eq hsize)] at hzero
      cases hzero
    simp [hsome, hne]

theorem size_run (hrun : events.foldlM (feed options size) {} = .ok b) :
    b.template.elements.size = Event.startCount events := by
  rw [← Template.length_headers, ← Outline.length_headers_ofEvents]
  exact congrArg (·.headers.length) (run_outline hrun)

end Assembly

variable {options : Options} {source content : String} {parsed : Parsed} {span : Span}
  {before after : List Event}

/-- In a source that is all text there is no element. -/
theorem startCount_scan_eq_zero (hscan : scan source = before ++ .text content span :: after)
    (hbefore : Event.startCount before = 0)
    (hspan : span.stop = Text.byteLength source.toList) : Event.startCount (scan source) = 0 := by
  have hafter : Event.startCount after = 0 := by
    by_contra hpos
    rcases Event.exists_start (Nat.pos_of_ne_zero hpos) with ⟨front, tag, unary, back, rfl, _⟩
    have hmem : Event.opened tag unary ∈ front ++ .opened tag unary :: back := by simp
    -- It would start behind the end of the source.
    have htimeline := timeline_scan source
    rw [hscan] at htimeline
    have hbehind : Event.Timeline span (front ++ .opened tag unary :: back) :=
      htimeline.behind rfl
    have hplace := hbehind.le_place hmem rfl
    have hwithin := within_scan source (.opened tag unary) (by
      rw [hscan]
      exact List.mem_append_right _ (List.mem_cons_of_mem _ hmem))
    rcases hwithin.1.covers with ⟨inside, hinside⟩
    have hstop := hinside.stop_le
    omega
  have hcons : Event.startCount (.text content span :: after) = Event.startCount after := rfl
  rw [hscan, Event.startCount_append, hbefore, hcons, hafter]

/-- Neither another text of a source nor one of its warnings is mistaken for a text. -/
theorem foreign_scan (hscan : scan source = before ++ .text content span :: after) :
    (∀ event ∈ before, event.Foreign span) ∧ ∀ event ∈ after, event.Foreign span := by
  have hdrop := isDrop_scan source
  have htimeline := timeline_scan source
  rw [hscan] at hdrop htimeline
  have hmem : Event.text content span ∈ before ++ .text content span :: after := by simp
  have hspan : span.start < span.stop := (htimeline.le_place hmem rfl).2
  constructor
  · intro event hevent
    refine ⟨?_, hdrop event (List.mem_append_left _ hevent)⟩
    rintro other rfl
    have hle : span.stop ≤ span.start := htimeline.place_le hevent rfl rfl
    omega
  · intro event hevent
    refine ⟨?_, hdrop event (List.mem_append_right _ (List.mem_cons_of_mem _ hevent))⟩
    rintro other rfl
    have hbehind : Event.Timeline span after := htimeline.behind rfl
    have hle : span.stop ≤ span.start := (hbehind.le_place hevent rfl).1
    omega

/-- Text outside all elements that has as many bytes as the source is the source. -/
theorem text_eq_source (hscan : scan source = before ++ .text content span :: after)
    (hopens : Event.Enclosing before [])
    (hbytes : Text.byteLength content.toList = Text.byteLength source.toList) :
    content = source ∧ span = ⟨0, Text.byteLength source.toList⟩ := by
  have haccounted := (reads_scan source).accounted (Scanner.pending_ofText source)
  rw [hscan] at haccounted
  rcases haccounted.covers_text with ⟨names, body, hnames, hcovers, hcontent⟩
  -- Nothing is open, so the text is read as it is written.
  obtain rfl : names = [] := Option.some.inj (hnames.symm.trans hopens.replay?_eq)
  have hbody : content.toList = body := by simp [hcontent, Event.contentOf]
  rw [hbody] at hbytes
  rcases hcovers.eq_all hbytes with ⟨hall, hspan⟩
  refine ⟨?_, hspan⟩
  rw [← String.toList_inj, hbody, hall]

/-- Text outside all elements is reported, or it is the whole source and there is no root. -/
theorem parse_text_outside (h : parse options source = .ok parsed)
    (hscan : scan source = before ++ .text content span :: after)
    (hblank : ¬content.toList.all Text.isBlank) (hopens : Event.Enclosing before []) :
    (∃ text, ⟨.textOutsideRoot text, span⟩ ∈ parsed.warnings) ∨
      (content = source ∧ ∃ w ∈ parsed.warnings, w.kind = .noRoot) := by
  rcases parse_eq_ok h with ⟨a, hrun, _, hwarnings⟩
  have hrun' := hrun
  rw [hscan] at hrun'
  rcases foldlM_append_eq_ok.1 hrun' with ⟨mid, hmid, hrest⟩
  rcases foldlM_cons_eq_ok.1 hrest with ⟨next, hnext, hafter⟩
  rw [Assembly.feed_text] at hnext
  cases hnext
  have henclosing : mid.enclosing = [] :=
    (congrArg Outline.enclosing (Assembly.run_outline hmid)).trans
      (Outline.enclosing_ofEvents hopens)
  rw [hwarnings]
  have hread :=
    Assembly.readText_of_nil options (Text.byteLength source.toList) span henclosing hblank
  rcases hread with ⟨text, htext⟩ | ⟨hroot, hsize⟩
  · refine .inl ⟨text, ?_⟩
    exact (Assembly.reports_finish _ a).mem ((Assembly.run_reports hafter).mem htext)
  · -- The text is all there is, so no element follows it and the root is missing in the end.
    rcases text_eq_source hscan hopens hsize with ⟨hcontent, rfl⟩
    have hbefore : Event.startCount before = 0 := by
      rw [← Assembly.size_run hmid]
      exact (Assembly.treelike_empty.run hmid).root_eq_none_iff.1 hroot
    have hnone : a.template.root = none := by
      rw [(Assembly.treelike_empty.run hrun).root_eq_none_iff, Assembly.size_run hrun]
      exact startCount_scan_eq_zero hscan hbefore rfl
    refine .inr ⟨hcontent, ⟨.noRoot, ⟨0, Text.byteLength source.toList⟩⟩, ?_, rfl⟩
    unfold Assembly.finish
    rw [hnone]
    simp [Assembly.warn]

/-- Behind the events that follow it, a text inside an element is a child of it or dropped. -/
theorem Assembly.settled_run {size : Nat} {a : Assembly} {id : ElementId} {tag : StartTag}
    {outer : List Event.Numbered}
    (hrun : (before ++ .text content span :: after).foldlM (feed options size) {} = .ok a)
    (hbefore : ∀ event ∈ before, event.Foreign span)
    (hafter : ∀ event ∈ after, event.Foreign span)
    (hblank : ¬content.toList.all Text.isBlank)
    (hopens : Event.Enclosing before ((id, tag) :: outer))
    (htext : Tag.decode tag.name content ≠ " ") :
    ∃ n w, n.content? = some (Tag.decode tag.name content) ∧ a.Settled span id n w := by
  rcases foldlM_append_eq_ok.1 hrun with ⟨mid, hmid, hrest⟩
  rcases foldlM_cons_eq_ok.1 hrest with ⟨next, hnext, hrest⟩
  rw [feed_text] at hnext
  cases hnext
  have houtline : mid.outline = Outline.ofEvents before := run_outline hmid
  have henclosing : mid.enclosing = id :: outer.map (·.1) :=
    (congrArg Outline.enclosing houtline).trans (Outline.enclosing_ofEvents hopens)
  obtain ⟨e, he, htag⟩ : ∃ e, mid.template.elements[id]? = some e ∧ e.tag = tag.name := by
    rcases Outline.header_innermost hopens with ⟨header, hheader, htag⟩
    rw [← houtline, outline, Template.getElem?_headers] at hheader
    rcases Option.map_eq_some_iff.1 hheader with ⟨e, he, rfl⟩
    exact ⟨e, he, htag⟩
  -- Before the text there is neither a node nor a warning with its span.
  have hunseen : mid.Holds span (fun _ => []) [] :=
    moves_invariant Moves.gone hmid hbefore ⟨fun _ => rfl, rfl⟩
  rw [← htag] at htext ⊢
  rcases settled_readText options size henclosing he hblank htext hunseen with
    ⟨n, w, hcontent, hw, hsettled⟩
  exact ⟨n, w, hcontent,
    moves_invariant (fun hmoves => hmoves.settled hw) hrest hafter hsettled⟩

/-- Text inside an element ends up as one child of it, or is dropped with one warning. -/
theorem parse_text_inside (h : parse options source = .ok parsed)
    (hscan : scan source = before ++ .text content span :: after)
    (hblank : ¬content.toList.all Text.isBlank) {id : ElementId} {tag : StartTag}
    {outer : List Event.Numbered} (hopens : Event.Enclosing before ((id, tag) :: outer))
    (htext : Tag.decode tag.name content ≠ " ") :
    ∃ e, parsed.template.elements[id]? = some e ∧
      ((∃ n, e.textsAt span = [n] ∧ n.content? = some (Tag.decode tag.name content) ∧
          Warning.dropsAt span parsed.warnings = []) ∨
        (e.textsAt span = [] ∧ ∃ w, Warning.dropsAt span parsed.warnings = [w])) := by
  rcases foreign_scan hscan with ⟨hbefore, hafter⟩
  rcases parse_eq_ok h with ⟨a, hrun, htemplate, hwarnings⟩
  have hlt : id < a.template.elements.size := by
    rw [Assembly.size_run hrun, hscan, Event.startCount_append]
    exact Nat.lt_add_right _ hopens.lt_startCount
  have he := Array.getElem?_eq_getElem hlt
  rw [hscan] at hrun
  rcases Assembly.settled_run hrun hbefore hafter hblank hopens htext with
    ⟨n, w, hcontent, hsettled⟩
  have hdrops : Warning.dropsAt span parsed.warnings = a.drops span := by
    rw [hwarnings]
    exact (Assembly.reports_finish _ a).drops_eq span
  rw [htemplate, hdrops]
  refine ⟨_, he, ?_⟩
  rw [← Template.textsAt_of_getElem? he]
  rcases hsettled with hkept | hdropped
  · refine .inl ⟨n, ?_, hcontent, hkept.drops_eq⟩
    rw [hkept.texts_eq, if_pos rfl]
  · exact .inr ⟨hdropped.texts_eq id, w, hdropped.drops_eq⟩

/-- No text is lost silently. At a text that is not blank it is known what is open. Outside all
elements, the text is reported, or it is the whole source and the missing root is reported. Inside
an element, unless it stands for a single space, it ends up as one child, with the text it stands
for, or in one warning about text between branches, and never as both. -/
theorem parse_texts (h : parse options source = .ok parsed)
    (hscan : scan source = before ++ .text content span :: after)
    (hblank : ¬content.toList.all Text.isBlank) :
    (∃ opens, Event.Enclosing before opens) ∧
    ∀ opens, Event.Enclosing before opens →
      (opens = [] →
        (∃ text, ⟨.textOutsideRoot text, span⟩ ∈ parsed.warnings) ∨
          (content = source ∧ ∃ w ∈ parsed.warnings, w.kind = .noRoot)) ∧
      ∀ id tag outer, opens = (id, tag) :: outer → Tag.decode tag.name content ≠ " " →
        ∃ e, parsed.template.elements[id]? = some e ∧
          ((∃ n, e.textsAt span = [n] ∧ n.content? = some (Tag.decode tag.name content) ∧
              Warning.dropsAt span parsed.warnings = []) ∨
            (e.textsAt span = [] ∧ ∃ w, Warning.dropsAt span parsed.warnings = [w])) := by
  constructor
  · have hreplay := (reads_scan source).replay
    rw [hscan] at hreplay
    rcases Event.exists_enclosing hreplay with ⟨opens, hopens, _⟩
    exact ⟨opens, hopens⟩
  · intro opens hopens
    constructor
    · rintro rfl
      exact parse_text_outside h hscan hblank hopens
    · rintro id tag outer rfl htext
      exact parse_text_inside h hscan hblank hopens htext

/-- The text between two branches ends up in a warning. -/
theorem parse_texts_between_branches :
    ∃ parsed e w,
      parse {} "<p><b v-if='a'></b>x &amp; y<b v-else></b></p>" = .ok parsed ∧
      parsed.template.elements[0]? = some e ∧ e.textsAt ⟨19, 28⟩ = [] ∧
      Warning.dropsAt ⟨19, 28⟩ parsed.warnings = [w] := by
  have hread : ((parse {} "<p><b v-if='a'></b>x &amp; y<b v-else></b></p>").map fun parsed =>
      (Warning.dropsAt ⟨19, 28⟩ parsed.warnings).length).toOption = some 1 := by
    decide +kernel
  cases h : parse {} "<p><b v-if='a'></b>x &amp; y<b v-else></b></p>" with
  | error error =>
      rw [h] at hread
      cases hread
  | ok parsed =>
      rw [h] at hread
      have hscan : scan "<p><b v-if='a'></b>x &amp; y<b v-else></b></p>" =
          ([] ++ .opened ⟨"p", [], false, ⟨0, 3⟩⟩ false ::
            .opened ⟨"b", [⟨"v-if", "a", ⟨6, 14⟩⟩], false, ⟨3, 15⟩⟩ false ::
              ([] ++ .closed "b" ⟨15, 19⟩ :: [])) ++
          .text "x &amp; y" ⟨19, 28⟩ ::
            [.opened ⟨"b", [⟨"v-else", "", ⟨31, 37⟩⟩], false, ⟨28, 38⟩⟩ false,
              .closed "b" ⟨38, 42⟩, .closed "p" ⟨42, 46⟩] := by
        decide +kernel
      have haround := (parse_texts h hscan (by decide)).2 _
        (.inside (.outermost .nil) (.element .nil .nil))
      rcases haround.2 _ _ _ rfl (by decide +kernel) with
        ⟨e, he, ⟨n, _, _, hdrops⟩ | ⟨htexts, w, hdrops⟩⟩
      · have hlength : (Warning.dropsAt ⟨19, 28⟩ parsed.warnings).length = 1 :=
          Option.some.inj hread
        simp [hdrops] at hlength
      · exact ⟨parsed, e, w, rfl, he, htexts, hdrops⟩

end TemplateMarkup
