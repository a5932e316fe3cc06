import Mathlib.Data.List.Chain
import TemplateMarkup.Proofs.Reference.Decode
import TemplateMarkup.Proofs.Scan.RawBodies
import TemplateMarkup.Proofs.Template.Texts

/-!
# Spaces between the children of an element

Text that is a single space comes from blank runs of text and from references. Of two spaces in a
row only the first becomes a child, and a space at the end goes with the end tag. This file
defines:

* `Element.Tidy P e` — in `e` no space follows a space, no text is empty, and `P` holds of the
  spans of all texts,
* `Element.Trimmed e` — the last child of `e` is no space,
* `Assembly.Tidy P a` — all elements are tidy, and those that are not open are trimmed.

The last of these is an invariant of assembling (`Assembly.Tidy.run`), whatever is linked elsewhere,
taken off, or left out between two texts. `parse_tidy` states it for a whole source.
-/

namespace TemplateMarkup

/-! ## Tidy elements -/

theorem Node.content?_of_isSpace {n : Node} (h : n.isSpace) : n.content? = some " " := by
  cases n with
  | element id => simp [isSpace, literal?] at h
  | expression parsed content span => simp [isSpace, literal?] at h
  | text content span => simpa [isSpace, literal?, content?] using h

namespace Element

variable {P : Span → Prop} {e e' : Element} {n : Node}

/-- No space follows a space, no text is empty, and `P` holds of the spans of all texts. -/
structure Tidy (P : Span → Prop) (e : Element) : Prop where
  single : e.children.toList.IsChain fun n m => ¬(n.isSpace ∧ m.isSpace)
  nonempty : ∀ n ∈ e.children.toList, n.content? ≠ some ""
  spans : ∀ n ∈ e.children.toList, ∀ span, n.textSpan? = some span → P span

/-- The last child is no space. -/
def Trimmed (e : Element) : Prop :=
  ∀ n ∈ e.children.toList.getLast?, ¬n.isSpace

theorem tidy_of_nil (h : e.children = #[]) : e.Tidy P where
  single := by simp [h]
  nonempty := by simp [h]
  spans := by simp [h]

theorem trimmed_of_nil (h : e.children = #[]) : e.Trimmed := by
  simp [Trimmed, h]

theorem trimmed_congr (h : e'.children = e.children) : e'.Trimmed ↔ e.Trimmed := by
  rw [Trimmed, h, Trimmed]

/-- Children may be taken off the end. -/
theorem Tidy.shorten (h : e.Tidy P) (hshorter : e'.children.toList <+: e.children.toList) :
    e'.Tidy P where
  single := by
    rcases hshorter with ⟨back, hback⟩
    have hsingle := h.single
    rw [← hback] at hsingle
    exact hsingle.left_of_append
  nonempty := fun n hn => h.nonempty n (hshorter.subset hn)
  spans := fun n hn => h.spans n (hshorter.subset hn)

theorem Tidy.congr (h : e.Tidy P) (hsame : e'.children = e.children) : e'.Tidy P :=
  h.shorten (hsame ▸ List.prefix_refl _)

/-- A child may be added, but for a space behind a space. -/
theorem Tidy.concat (h : e.Tidy P) (hchildren : e'.children.toList = e.children.toList ++ [n])
    (hspace : n.isSpace → e.Trimmed) (hcontent : n.content? ≠ some "")
    (hspan : ∀ span, n.textSpan? = some span → P span) : e'.Tidy P where
  single := by
    rw [hchildren]
    refine h.single.append (List.isChain_singleton n) fun last hlast m hm => ?_
    cases hm
    exact fun ⟨hlastSpace, hnSpace⟩ => hspace hnSpace last hlast hlastSpace
  nonempty := by
    rw [hchildren]
    exact List.forall_mem_append.2 ⟨h.nonempty, by simpa using hcontent⟩
  spans := by
    rw [hchildren]
    exact List.forall_mem_append.2 ⟨h.spans, by simpa using hspan⟩

/-- At its end an element loses its last space, and there is no other in front of that. -/
theorem Tidy.closedAt (h : e.Tidy P) (span : Span) :
    (Assembly.closedAt span e).Tidy P ∧ (Assembly.closedAt span e).Trimmed := by
  have hshorter : (Assembly.closedAt span e).children.toList <+: e.children.toList := by
    rcases Assembly.children_eq_closedAt_append span e with ⟨rest, hrest, _⟩
    exact ⟨rest, hrest.symm⟩
  refine ⟨h.shorten hshorter, fun n hn hspace => ?_⟩
  cases hback : e.children.back? with
  | none =>
      have hnil : e.children = #[] := Array.back?_eq_none_iff.1 hback
      simp [Assembly.closedAt, hnil] at hn
  | some last =>
      rcases Array.back?_eq_some_iff.1 hback with ⟨front, hfront⟩
      by_cases hlast : last.isSpace = true
      · -- Two spaces would stand at the end.
        have hchildren : (Assembly.closedAt span e).children = front := by
          simp [Assembly.closedAt, hfront, hlast]
        rw [hchildren] at hn
        have hsingle := h.single
        rw [hfront, Array.toList_push, List.isChain_append] at hsingle
        exact hsingle.2.2 n hn last rfl ⟨hspace, hlast⟩
      · have hchildren : (Assembly.closedAt span e).children = e.children := by
          simp [Assembly.closedAt, hback, hlast]
        rw [hchildren, hfront, Array.toList_push, List.getLast?_concat] at hn
        cases hn
        exact hlast hspace

end Element

/-! ## Texts -/

namespace Tag

/-- What is not blank does not stand for an empty text. -/
theorem decode_ne_empty {content : String} (h : ¬content.toList.all Text.isBlank) (tag : String) :
    decode tag content ≠ "" := by
  have hne : content.toList ≠ [] := by
    intro hnil
    simp [hnil] at h
  unfold decode
  split
  · rintro rfl
    exact hne rfl
  · rw [← String.toList_inj.ne, String.toList_ofList]
    exact Reference.decode_ne_nil hne

end Tag

namespace Assembly

variable {P : Span → Prop} {a b : Assembly} {e : Element} {id : ElementId} {options : Options}
  {size : Nat} {event : Event} {events : List Event} {content text : String} {span : Span}

/-- A run of text that counts: it is not blank, or spaces are kept. -/
def Counts (options : Options) (content : String) : Prop :=
  options.preserveWhitespace ∨ ¬content.toList.all Text.isBlank

theorem textIn?_cases (h : textIn? options e content = some text) :
    text ≠ "" ∧ Counts options content := by
  by_cases hblank : content.toList.all Text.isBlank
  · unfold textIn? at h
    rw [if_pos hblank] at h
    split at h
    · next hkeep =>
        cases h
        exact ⟨by decide, .inl hkeep.1⟩
    · cases h
  · rw [textIn?_of_not_blank hblank] at h
    cases h
    exact ⟨Tag.decode_ne_empty hblank e.tag, .inr hblank⟩

/-- A text is added unless it is a space behind a space. -/
theorem addText_cases (options : Options) (text : String) (span : Span) (e : Element) :
    (addText options text span e).children = e.children ∨
      ∃ n, n.content? = some text ∧ n.textSpan? = some span ∧ (n.isSpace → e.Trimmed) ∧
        (addText options text span e).children.toList = e.children.toList ++ [n] := by
  by_cases htext : text = " "
  · unfold addText
    rw [if_pos htext]
    split
    · exact .inl rfl
    · next hback =>
        refine .inr ⟨_, rfl, rfl, fun _ n hn hspace => ?_, Array.toList_push⟩
        rw [Array.getLast?_toList, Option.mem_def] at hn
        rw [hn] at hback
        exact hback hspace
  · rcases addText_of_ne htext options span e with ⟨n, _, hcontent, hspan, _, hchildren⟩
    refine .inr ⟨n, hcontent, hspan, fun hspace => ?_, hchildren⟩
    rw [Node.content?_of_isSpace hspace] at hcontent
    exact absurd (Option.some.inj hcontent).symm htext

end Assembly

theorem Element.Tidy.addText {P : Span → Prop} {e : Element} {text : String} {span : Span}
    (h : e.Tidy P) (options : Options) (htext : text ≠ "") (hspan : P span) :
    (Assembly.addText options text span e).Tidy P := by
  rcases Assembly.addText_cases options text span e with
    hsame | ⟨n, hcontent, hplace, hspace, hchildren⟩
  · exact h.congr hsame
  · refine h.concat hchildren hspace ?_ fun other hother => ?_
    · rw [hcontent]
      exact fun heq => htext (Option.some.inj heq)
    · rw [hplace] at hother
      cases hother
      exact hspan

/-! ## Assembling keeps elements tidy -/

namespace Assembly

variable {P : Span → Prop} {a b : Assembly} {e : Element} {id : ElementId} {options : Options}
  {size : Nat} {event : Event} {events : List Event} {content : String} {span : Span}

/-- All elements are tidy, and those that are not open are trimmed. -/
structure Tidy (P : Span → Prop) (a : Assembly) : Prop where
  each : ∀ {id : ElementId} {e : Element}, a.template.elements[id]? = some e → e.Tidy P
  trimmed : ∀ {id : ElementId} {e : Element}, a.template.elements[id]? = some e →
    id ∉ a.enclosing → e.Trimmed

theorem tidy_empty : Tidy P {} where
  each := by
    intro id e he
    simp at he
  trimmed := by
    intro id e he
    simp at he

/-- A new element has no children. -/
theorem Tidy.extend {new : Element} (h : a.Tidy P) (hnew : new.children = #[])
    (warnings : List Warning) : (a.extend new warnings).Tidy P := by
  constructor
  · intro id e he
    rw [extend_template, Template.push, Array.getElem?_push] at he
    split at he
    · cases he
      exact Element.tidy_of_nil hnew
    · exact h.each he
  · intro id e he hid
    rw [extend_template, Template.push, Array.getElem?_push] at he
    split at he
    · cases he
      exact Element.trimmed_of_nil hnew
    · exact h.trimmed he hid

/-- Linking changes the children of the innermost element alone, which is open. -/
theorem Tidy.link {new : Element} {newId : ElementId} (h : a.Tidy P)
    (hlinks : Links a newId new b) : b.Tidy P := by
  constructor
  · intro id e he
    rcases hlinks.children_cases he with ⟨old, hold, hsame | ⟨_, hshorter | hchild⟩⟩
    · exact (h.each hold).congr hsame
    · exact (h.each hold).shorten hshorter
    · exact (h.each hold).concat hchild (by simp [Node.isSpace, Node.literal?])
        (by simp [Node.content?]) (by simp [Node.textSpan?])
  · intro id e he hid
    rw [hlinks.enclosing_eq] at hid
    rcases hlinks.children_cases he with ⟨old, hold, hsame | ⟨⟨outer, htop⟩, _⟩⟩
    · exact (Element.trimmed_congr hsame).2 (h.trimmed hold hid)
    · exact absurd (htop ▸ List.mem_cons_self) hid

/-- More elements are open, so less is asked. -/
theorem Tidy.enter (h : a.Tidy P) (unary : Bool) (id : ElementId) : (a.enter unary id).Tidy P := by
  constructor
  · intro other e he
    rw [enter_template] at he
    exact h.each he
  · intro other e he hid
    rw [enter_template] at he
    refine h.trimmed he fun hmem => hid ?_
    rw [enter_enclosing]
    split
    · exact hmem
    · exact List.mem_cons_of_mem _ hmem

theorem Tidy.openElement {tag : StartTag} {unary : Bool} (h : a.Tidy P)
    (hopen : a.openElement options tag unary = .ok b) : b.Tidy P := by
  rcases openElement_eq_ok hopen with ⟨new, warnings, linked, hread, hlinks, rfl⟩
  rcases Element.ofStartTag_skeleton hread with ⟨_, _, hskeleton⟩
  have hnew : new.children = #[] := congrArg Element.Skeleton.children hskeleton
  exact ((h.extend hnew warnings).link hlinks).enter unary _

theorem Tidy.closeElement (h : a.Tidy P) (span : Span) : (a.closeElement span).Tidy P := by
  cases henclosing : a.enclosing with
  | nil =>
      rw [closeElement_of_nil henclosing]
      exact h
  | cons top outer =>
      rw [closeElement_of_cons henclosing]
      constructor
      · intro id e he
        rcases getElem?_modify_cases he with ⟨old, hold, rfl | ⟨_, rfl⟩⟩
        · exact h.each hold
        · exact ((h.each hold).closedAt span).1
      · intro id e he hid
        rw [modify_template, Template.getElem?_modify] at he
        -- Of the elements that are not open now, only the one that is closed was open before.
        split at he
        · rcases Option.map_eq_some_iff.1 he with ⟨old, hold, rfl⟩
          exact ((h.each hold).closedAt span).2
        · next hne =>
            refine h.trimmed he ?_
            rw [henclosing, List.mem_cons, not_or]
            exact ⟨Ne.symm hne, hid⟩

theorem Tidy.readText (h : a.Tidy P) (hspan : Counts options content → P span) :
    (a.readText options size content span).Tidy P := by
  rcases readText_cases options size a content span with
    hsame | ⟨parent, outer, e, text, henclosing, he, hin, htemplate⟩
  · constructor
    · intro id e he
      rw [hsame] at he
      exact h.each he
    · intro id e he hid
      rw [hsame] at he
      rw [readText_enclosing] at hid
      exact h.trimmed he hid
  · rcases textIn?_cases hin with ⟨htext, hcounts⟩
    constructor
    · intro id e' he'
      rw [htemplate] at he'
      rcases getElem?_modify_cases he' with ⟨old, hold, rfl | ⟨_, rfl⟩⟩
      · exact h.each hold
      · exact (h.each hold).addText options htext (hspan hcounts)
    · intro id e' he' hid
      rw [htemplate] at he'
      rw [readText_enclosing] at hid
      -- The element that the text is added to is open, so its last child may be a space.
      rcases getElem?_modify_cases he' with ⟨old, hold, rfl | ⟨rfl, _⟩⟩
      · exact h.trimmed hold hid
      · exact absurd (by simp [henclosing]) hid

theorem Tidy.feed (h : a.Tidy P) (hfeed : feed options size a event = .ok b)
    (hspan : ∀ content span, event = .text content span → Counts options content → P span) :
    b.Tidy P := by
  cases event with
  | opened tag unary =>
      rw [feed_opened] at hfeed
      exact h.openElement hfeed
  | closed name span =>
      rw [feed_closed] at hfeed
      cases hfeed
      exact h.closeElement span
  | text content span =>
      rw [feed_text] at hfeed
      cases hfeed
      exact h.readText (hspan content span rfl)
  | warned warning =>
      rw [feed_warned] at hfeed
      cases hfeed
      exact ⟨h.each, h.trimmed⟩

/-- Assembling keeps all elements tidy. -/
theorem Tidy.run (h : a.Tidy P) (hrun : events.foldlM (Assembly.feed options size) a = .ok b)
    (hspan : ∀ content span, .text content span ∈ events → Counts options content → P span) :
    b.Tidy P :=
  foldlM_invariant_of_mem (P := Tidy P)
    (fun hevent hfeed hcurrent => hcurrent.feed hfeed fun content span heq =>
      hspan content span (heq ▸ hevent)) hrun h

end Assembly

/-! ## The whole template -/

/-- A text that is not blank stands where the source is not blank: its characters are there, or
references to them. -/
theorem slice_not_blank {source content : String} {span : Span}
    (h : .text content span ∈ scan source) (hblank : ¬content.toList.all Text.isBlank) :
    ∃ slice, span.slice? source = some slice ∧ ¬slice.toList.all Text.isBlank := by
  rcases List.append_of_mem h with ⟨before, after, hscan⟩
  have haccounted := (reads_scan source).accounted (Scanner.pending_ofText source)
  rw [hscan] at haccounted
  rcases haccounted.covers_text with ⟨names, body, _, hcovers, rfl⟩
  refine ⟨_, hcovers.slice?_eq, fun hbody => hblank ?_⟩
  rw [String.toList_ofList, List.all_eq_true] at hbody ⊢
  exact fun c hc => hbody c ((RawText.contentOf_sublist names body).subset hc)

variable {options : Options} {source : String} {parsed : Parsed}

/-- However its elements are linked, in a parsed template no space follows a space among the
children of an element, none is the last of them, and no text is empty. Unless spaces are kept,
every text stands where the source is not blank. -/
theorem parse_tidy (h : parse options source = .ok parsed) (id : ElementId) (e : Element)
    (he : parsed.template.elements[id]? = some e) :
    (e.children.toList.IsChain fun n m => ¬(n.isSpace ∧ m.isSpace)) ∧
    (∀ n ∈ e.children.toList.getLast?, ¬n.isSpace) ∧
    (∀ n ∈ e.children.toList, n.content? ≠ some "") ∧
    (options.preserveWhitespace = false →
      ∀ n ∈ e.children.toList, ∀ span, n.textSpan? = some span →
        ∃ slice, span.slice? source = some slice ∧ ¬slice.toList.all Text.isBlank) := by
  rcases parse_eq_ok h with ⟨a, hrun, htemplate, _⟩
  have htidy := Assembly.Tidy.run (Assembly.tidy_empty (P := fun span =>
    options.preserveWhitespace = false →
      ∃ slice, span.slice? source = some slice ∧ ¬slice.toList.all Text.isBlank)) hrun
    fun content span hmem hcounts hkeep =>
      slice_not_blank hmem (hcounts.resolve_left (by simp [hkeep]))
  rw [htemplate] at he
  have hopen : id ∉ a.enclosing := by simp [Assembly.enclosing_run_scan hrun]
  have hchildren := htidy.each he
  exact ⟨hchildren.single, htidy.trimmed he hopen, hchildren.nonempty,
    fun hkeep n hn span hspan => hchildren.spans n hn span hspan hkeep⟩

/-- The reference stands for a space, which the end tag takes off. -/
theorem parse_tidy_reference :
    ∃ parsed e, parse {} "<p>a <b>&#32;</b> <i>c</i></p>" = .ok parsed ∧
      parsed.template.elements[1]? = some e ∧ e.tag = "b" ∧ e.children = #[] ∧
      (e.children.toList.IsChain fun n m => ¬(n.isSpace ∧ m.isSpace)) ∧
      ∀ n ∈ e.children.toList.getLast?, ¬n.isSpace := by
  have hread : ((parse {} "<p>a <b>&#32;</b> <i>c</i></p>").map fun parsed =>
      parsed.template.elements[1]?.map fun e => (e.tag, e.children.size)).toOption =
      some (some ("b", 0)) := by
    decide +kernel
  cases h : parse {} "<p>a <b>&#32;</b> <i>c</i></p>" with
  | error error =>
      rw [h] at hread
      cases hread
  | ok parsed =>
      rw [h] at hread
      rcases Option.map_eq_some_iff.1 (Option.some.inj hread) with ⟨e, he, hpair⟩
      rw [Prod.mk.injEq] at hpair
      rcases parse_tidy h 1 e he with ⟨hsingle, hlast, _, _⟩
      exact ⟨parsed, e, rfl, he, hpair.1, Array.size_eq_zero_iff.1 hpair.2, hsingle, hlast⟩

end TemplateMarkup
