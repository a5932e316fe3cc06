import TemplateMarkup.Proofs.Event.Layout
import TemplateMarkup.Proofs.Template.Outline

/-!
# What becomes of an element

An element is read from its start tag at once. Until its template is finished it gains children,
branches and scoped slots, but its attributes and all its other directives stay as they were read:

* `Element.Grows e e'` — what assembling can do to an element that has been read,
* `Element.ReadFrom options id tag e` — the element was read from `tag` and has grown since,
* `Template.Grown` — each element comes from its start tag in this way; every event keeps it so,
* `parse_read` — the elements of a parsed template come from the start tags of its source.
-/

namespace TemplateMarkup

namespace Element

variable {e e' e'' : Element}

/-! ## Growing -/

/-- What assembling can do to an element that has been read. -/
structure Grows (e e' : Element) : Prop where
  attributes_eq : e'.attributes = e.attributes
  map_eq : e'.attributeMap = e.attributeMap
  /-- A plain element has been plain before, and has got no scoped slot. -/
  directives : ∃ branches slots plain,
    e'.directives = { e.directives with branches, scopedSlots := slots, isPlain := plain } ∧
      (plain → slots = e.directives.scopedSlots ∧ e.directives.isPlain)

theorem Grows.of_eq (hattributes : e'.attributes = e.attributes)
    (hmap : e'.attributeMap = e.attributeMap) (hdirectives : e'.directives = e.directives) :
    Grows e e' :=
  ⟨hattributes, hmap, e.directives.branches, e.directives.scopedSlots, e.directives.isPlain,
    hdirectives, fun hplain => ⟨rfl, hplain⟩⟩

theorem Grows.refl (e : Element) : Grows e e :=
  .of_eq rfl rfl rfl

theorem Grows.trans (h : Grows e e') (h' : Grows e' e'') : Grows e e'' := by
  rcases h with ⟨hattributes, hmap, branches, slots, plain, hdirectives, hplain⟩
  rcases h' with ⟨hattributes', hmap', branches', slots', plain', hdirectives', hplain'⟩
  refine ⟨hattributes'.trans hattributes, hmap'.trans hmap, branches', slots', plain', ?_, ?_⟩
  · rw [hdirectives', hdirectives]
  · intro h
    rcases hplain' h with ⟨hslots, hbefore⟩
    rw [hdirectives] at hslots hbefore
    exact ⟨hslots.trans (hplain hbefore).1, (hplain hbefore).2⟩

open Assembly in
theorem grows_addText (options : Options) (text : String) (span : Span) (e : Element) :
    Grows e (addText options text span e) := by
  unfold addText
  split
  · split
    · exact .refl e
    · exact .of_eq rfl rfl rfl
  · split
    · exact .of_eq rfl rfl rfl
    · exact .of_eq rfl rfl rfl

theorem grows_withBranch (branch : Branch) (e : Element) :
    Grows e (Assembly.withBranch branch e) :=
  ⟨rfl, rfl, _, _, e.directives.isPlain, rfl, fun hplain => ⟨rfl, hplain⟩⟩

theorem grows_withSlot (target : String) (id : ElementId) (e : Element) :
    Grows e (Assembly.withSlot target id e) :=
  ⟨rfl, rfl, _, _, false, rfl, fun hplain => absurd hplain Bool.false_ne_true⟩

/-- The element was read from `tag` as number `id`, and has grown since. -/
def ReadFrom (options : Options) (id : ElementId) (tag : StartTag) (e : Element) : Prop :=
  ∃ t parent first warnings, ofStartTag options t id parent tag = .ok (first, warnings) ∧
    first.Grows e

end Element

/-! ## Assembling -/

namespace Template

variable {options : Options} {tags : List StartTag} {tag : StartTag} {t t' : Template}
  {p : ElementId} {f : Element → Element} {e : Element}

/-- The elements were read from the start tags, one from each, and have grown since. -/
structure Grown (options : Options) (tags : List StartTag) (t : Template) : Prop where
  length_eq : tags.length = t.elements.size
  read : ∀ {id : ElementId} {e : Element}, t.elements[id]? = some e →
    ∃ tag, tags[id]? = some tag ∧ e.ReadFrom options id tag

theorem Grown.of_eq (h : t.Grown options tags) (helements : t'.elements = t.elements) :
    t'.Grown options tags where
  length_eq := h.length_eq.trans (congrArg Array.size helements.symm)
  read := by
    intro id e he
    rw [helements] at he
    exact h.read he

theorem Grown.modify (h : t.Grown options tags) (hf : ∀ e : Element, e.Grows (f e)) :
    (t.modify p f).Grown options tags where
  length_eq := h.length_eq.trans (size_modify t p f).symm
  read := by
    intro id e he
    rw [getElem?_modify] at he
    split at he
    · rcases Option.map_eq_some_iff.1 he with ⟨old, hold, rfl⟩
      rcases h.read hold with ⟨tag, htag, t, parent, first, warnings, hread, hgrows⟩
      exact ⟨tag, htag, t, parent, first, warnings, hread, hgrows.trans (hf old)⟩
    · exact h.read he

theorem Grown.push (h : t.Grown options tags) (hread : e.ReadFrom options t.elements.size tag) :
    (t.push e).Grown options (tags ++ [tag]) where
  length_eq := by simp [Template.push, h.length_eq]
  read := by
    intro id e' he'
    rw [Template.push, Array.getElem?_push] at he'
    split at he'
    · next hid =>
        cases he'
        refine ⟨tag, ?_, hid ▸ hread⟩
        rw [hid, ← h.length_eq, List.getElem?_concat_length]
    · rcases h.read he' with ⟨tag', htag', hread'⟩
      exact ⟨tag', List.getElem?_append_left (List.getElem?_eq_some_iff.1 htag').1 ▸ htag', hread'⟩

end Template

namespace Assembly

variable {options : Options} {tags : List StartTag} {a b : Assembly} {id : ElementId}
  {e : Element} {size : Nat} {event : Event} {events : List Event}

theorem grown_dropText (ha : a.template.Grown options tags) (parent : ElementId) :
    (a.dropText parent).template.Grown options tags := by
  rw [dropText_template]
  exact ha.modify fun _ => .of_eq rfl rfl rfl

/-- Linking adds a child, a branch or a scoped slot to some element, or takes texts off it. -/
theorem Links.grown (h : Links a id e b) (ha : a.template.Grown options tags) :
    b.template.Grown options tags := by
  cases h with
  | root _ _ =>
      rw [addRoot_template]
      exact ha.of_eq rfl
  | rootBranch _ _ _ _ =>
      rw [addBranch_template, warnUnstable_template]
      exact ha.modify (Element.grows_withBranch _)
  | rootOrphan _ _ _ _ => exact ha
  | secondRoot _ _ _ _ => exact ha
  | laterRoot _ _ _ _ => exact ha
  | branch _ _ _ _ =>
      rw [addBranch_template]
      exact (grown_dropText ha _).modify (Element.grows_withBranch _)
  | orphan _ _ _ => exact grown_dropText ha _
  | slot _ _ _ => exact ha.modify (Element.grows_withSlot _ _)
  | child _ _ _ => exact ha.modify fun _ => .of_eq rfl rfl rfl

/-- Every event keeps what each element was read from; a start event adds an element. -/
theorem grown_feed (ha : a.template.Grown options tags) (h : feed options size a event = .ok b) :
    b.template.Grown options (tags ++ Event.startTags [event]) := by
  cases event with
  | opened tag unary =>
      rw [feed_opened] at h
      rcases openElement_eq_ok h with ⟨e, warnings, linked, hread, hlinks, rfl⟩
      rw [enter_template]
      refine hlinks.grown (ha.push ?_)
      exact ⟨_, _, e, warnings, hread, .refl e⟩
  | closed name span =>
      rw [feed_closed] at h
      cases h
      have hsame : tags ++ Event.startTags [.closed name span] = tags := List.append_nil tags
      rw [hsame]
      cases henclosing : a.enclosing with
      | nil =>
          rw [closeElement_of_nil henclosing]
          exact ha
      | cons top outer =>
          rw [closeElement_of_cons henclosing]
          exact ha.modify fun _ => .of_eq rfl rfl rfl
  | text content span =>
      rw [feed_text] at h
      cases h
      have hsame : tags ++ Event.startTags [.text content span] = tags := List.append_nil tags
      rw [hsame]
      rcases readText_template options size a content span with htext | ⟨parent, text, _, htext⟩
      · rw [htext]
        exact ha
      · rw [htext]
        exact ha.modify (Element.grows_addText options text span)
  | warned warning =>
      rw [feed_warned] at h
      cases h
      have hsame : tags ++ Event.startTags [.warned warning] = tags := List.append_nil tags
      rw [hsame]
      exact ha

theorem grown_run (ha : a.template.Grown options tags)
    (h : events.foldlM (feed options size) a = .ok b) :
    b.template.Grown options (tags ++ Event.startTags events) := by
  induction events generalizing a tags with
  | nil =>
      cases h
      have hsame : tags ++ Event.startTags [] = tags := List.append_nil tags
      rw [hsame]
      exact ha
  | cons event events ih =>
      rcases foldlM_cons_eq_ok.1 h with ⟨next, hnext, hrest⟩
      have hall := ih (grown_feed ha hnext) hrest
      rwa [List.append_assoc, ← Event.startTags_append, List.singleton_append] at hall

end Assembly

/-- Every element of a parsed template was read from its start tag in the source. -/
theorem parse_read {options : Options} {source : String} {parsed : Parsed}
    (h : parse options source = .ok parsed) {id : ElementId} {e : Element}
    (he : parsed.template.elements[id]? = some e) :
    ∃ tag, (Event.startTags (scan source))[id]? = some tag ∧ e.ReadFrom options id tag := by
  rcases parse_eq_ok h with ⟨a, hrun, htemplate, _⟩
  have hempty : ({} : Assembly).template.Grown options [] := ⟨rfl, by simp⟩
  rw [htemplate] at he
  exact (Assembly.grown_run hempty hrun).read he

end TemplateMarkup
