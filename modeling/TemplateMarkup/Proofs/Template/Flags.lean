import TemplateMarkup.Proofs.Template.Outline
import TemplateMarkup.Proofs.Template.Warnings

/-!
# What the flags of a reading change

The two flags of `Options` change only what they are named for. A `Sieve` says which of the two is
looked at, and `sift` takes what that flag adds out of a template or an assembly: spaces, or
warnings about interpolation. Each operation of an assembly is shown to commute with sifting, so
two readings that differ in a flag are the same once they are sifted:

* `Element.ofStartTag_sift` — reading a start tag,
* `Assembly.openElement_sift`, `closeElement_sift`, `readText_sift` — one event,
* `Assembly.run_sift` — all events,
* `parse_flags` — the two flags.

Text is where sifting is lossy: whether a space is added depends on spaces before it. So the two
sides of `readText_sift` are compared after sifting once more.
-/

namespace TemplateMarkup

namespace Warning

/-- Whether a warning is about interpolation in an attribute. -/
def isInterpolation (w : Warning) : Bool :=
  match w.kind with
  | .interpolationInAttribute _ _ => true
  | _ => false

theorem isInterpolation_of_isTagFault {w : Warning} (h : w.isTagFault) :
    w.isInterpolation = false := by
  rcases w with ⟨kind, span⟩
  cases kind with
  | interpolationInAttribute name value => cases h
  | _ => rfl

end Warning

/-! ## Sieves -/

/-- What passes when a template is sifted, besides all else. -/
structure Sieve where
  spaces : Bool := true
  interpolations : Bool := true

namespace Sieve

def node (s : Sieve) (n : Node) : Bool :=
  s.spaces || !n.isSpace

def warning (s : Sieve) (w : Warning) : Bool :=
  s.interpolations || !w.isInterpolation

variable {s : Sieve} {n : Node} {w : Warning}

theorem isSpace_of_node (h : s.node n = false) : n.isSpace = true := by
  simp only [node, Bool.or_eq_false_iff, Bool.not_eq_false'] at h
  exact h.2

theorem node_of_isText (h : n.isText = false) : s.node n = true := by
  cases n with
  | element id => exact Bool.or_eq_true_iff.2 (.inr rfl)
  | expression parsed text span => cases h
  | text text span => cases h

theorem node_of_spaces (h : s.spaces) (n : Node) : s.node n = true := by
  rw [node, h]
  rfl

theorem warning_of_isInterpolation (h : w.isInterpolation = false) : s.warning w = true := by
  rw [warning, h, Bool.or_eq_true]
  exact .inr rfl

theorem filter_eq_self {warnings : List Warning}
    (h : ∀ w ∈ warnings, w.isInterpolation = false) : warnings.filter s.warning = warnings :=
  List.filter_eq_self.2 fun w hw => warning_of_isInterpolation (h w hw)

end Sieve

/-- The options with the flags off that let through what the sieve holds back. -/
def Options.sift (s : Sieve) (options : Options) : Options :=
  { options with
    preserveWhitespace := options.preserveWhitespace && s.spaces
    warnInterpolation := options.warnInterpolation && s.interpolations }

def Element.sift (s : Sieve) (e : Element) : Element :=
  { e with children := e.children.filter s.node }

def Template.sift (s : Sieve) (t : Template) : Template :=
  { t with elements := t.elements.map (·.sift s) }

def Assembly.sift (s : Sieve) (a : Assembly) : Assembly :=
  { a with template := a.template.sift s, warnings := a.warnings.filter s.warning }

/-! ## Templates -/

namespace Template

variable {s : Sieve} {t : Template} {f g : Element → Element}

theorem getElem?_sift (s : Sieve) (t : Template) (j : ElementId) :
    (t.sift s).elements[j]? = t.elements[j]?.map (·.sift s) := by
  simp [sift]

@[simp] theorem size_sift (s : Sieve) (t : Template) :
    (t.sift s).elements.size = t.elements.size := by
  simp [sift]

@[simp] theorem sift_root (s : Sieve) (t : Template) : (t.sift s).root = t.root := rfl

theorem push_sift (s : Sieve) (t : Template) (e : Element) :
    (t.push e).sift s = (t.sift s).push (e.sift s) := by
  simp [sift, push]

theorem modify_eq_self {id : ElementId} (h : ∀ e, t.elements[id]? = some e → f e = e) :
    t.modify id f = t := by
  refine ext_getElem? rfl fun j => ?_
  rw [getElem?_modify]
  by_cases hj : id = j
  · subst hj
    cases he : t.elements[id]? with
    | none => simp
    | some e => simp [h e he]
  · simp [hj]

/-- A change of one element that commutes with sifting. -/
theorem modify_sift (h : ∀ e, (f e).sift s = g (e.sift s)) (t : Template) (id : ElementId) :
    (t.modify id f).sift s = (t.sift s).modify id g := by
  refine ext_getElem? rfl fun j => ?_
  rw [getElem?_sift, getElem?_modify, getElem?_modify, getElem?_sift]
  cases t.elements[j]? with
  | none => simp
  | some e => by_cases hj : id = j <;> simp [hj, h]

/-- What is asked about an element that sifting leaves alone. -/
theorem any_sift (s : Sieve) (ask : Element → Bool) (h : ∀ e, ask (e.sift s) = ask e)
    (t : Template) (id : ElementId) :
    (t.sift s).elements[id]?.any ask = t.elements[id]?.any ask := by
  rw [getElem?_sift]
  cases t.elements[id]? with
  | none => rfl
  | some e => exact h e

theorem ancestors_sift (s : Sieve) (t : Template) (id : ElementId) :
    (t.sift s).ancestors id = t.ancestors id := by
  induction id using Nat.strongRecOn with
  | ind id ih =>
      have hparent : (t.sift s).elements[id]?.bind (·.parent) =
          t.elements[id]?.bind (·.parent) := by
        rw [getElem?_sift]
        cases t.elements[id]? with
        | none => rfl
        | some e => rfl
      rw [ancestors.eq_def (t.sift s), ancestors.eq_def t, hparent]
      cases t.elements[id]?.bind (·.parent) with
      | none => rfl
      | some parent =>
          by_cases hlt : parent < id
          · simp only [hlt, if_true, ih parent hlt]
          · simp only [hlt, if_false]

@[simp] theorem loopsAround_sift (s : Sieve) (t : Template) (parent : Option ElementId) :
    (t.sift s).loopsAround parent = t.loopsAround parent := by
  cases parent with
  | none => rfl
  | some parent =>
      simp only [loopsAround, ancestors_sift]
      congr 1
      funext id
      rw [getElem?_sift]
      cases t.elements[id]? with
      | none => rfl
      | some e => rfl

end Template

/-! ## Reading a start tag -/

namespace Element

variable {s : Sieve} {e : Element} {options : Options} {t : Template}

theorem readRef_sift (s : Sieve) (t : Template) (e : Element) :
    e.readRef (t.sift s) = e.readRef t := by
  simp only [readRef, Template.loopsAround_sift]

theorem modelWarnings_sift (s : Sieve) (t : Template) (e : Element) :
    e.modelWarnings (t.sift s) = e.modelWarnings t := by
  simp only [modelWarnings, Template.loopsAround_sift]

theorem attributeWarnings_sift (s : Sieve) (options : Options) (e : Element) (a : Attribute) :
    e.attributeWarnings (options.sift s) a =
      (e.attributeWarnings options a).filter s.warning := by
  unfold attributeWarnings
  split
  · -- The one kind of warning that a sieve may hold back.
    have hpasses : s.warning ⟨.interpolationInAttribute a.name a.value, a.span⟩ =
        s.interpolations := by
      simp [Sieve.warning, Warning.isInterpolation]
    have hmarks : (options.sift s).marks = options.marks := rfl
    rw [hmarks]
    cases hs : s.interpolations with
    | false => split <;> simp_all [Options.sift]
    | true => split <;> simp_all [Options.sift]
  · refine (Sieve.filter_eq_self fun w hw => ?_).symm
    rw [Warning.isInterpolation, kind_of_mem_handlerWarnings hw]
  · rfl

theorem ofStartTag_sift (s : Sieve) (options : Options) (t : Template) (id : ElementId)
    (parent : Option ElementId) (tag : StartTag) :
    ofStartTag (options.sift s) (t.sift s) id parent tag =
      (ofStartTag options t id parent tag).map fun read => (read.1, read.2.filter s.warning) := by
  rcases hloop : (unread tag parent).readLoop with ⟨looped, loopWarnings⟩
  rcases hkey : ((looped.readCondition id).readOnce).readKey with ⟨keyed, keyWarnings⟩
  -- Only the warnings about attributes can be held back; the others are about directives.
  have hloops : loopWarnings.filter s.warning = loopWarnings := by
    refine Sieve.filter_eq_self fun w hw => ?_
    rcases kind_of_mem_readLoop (e := unread tag parent) (by rw [hloop]; exact hw) with
      ⟨_, _, hkind⟩
    rw [Warning.isInterpolation, hkind]
  have hkeys : keyWarnings.filter s.warning = keyWarnings := by
    refine Sieve.filter_eq_self fun w hw => ?_
    rw [Warning.isInterpolation, kind_of_mem_readKey (w := w) (by rw [hkey]; exact hw)]
  have hmodels (e : Element) : (e.modelWarnings t).filter s.warning = e.modelWarnings t := by
    refine Sieve.filter_eq_self fun w hw => ?_
    rcases kind_of_mem_modelWarnings hw with ⟨_, _, hkind⟩
    rw [Warning.isInterpolation, hkind]
  have hattributes (e : Element) : e.attributeWarnings (options.sift s) =
      fun a => (e.attributeWarnings options a).filter s.warning :=
    funext (attributeWarnings_sift s options e)
  unfold ofStartTag
  simp only [hloop, hkey, readRef_sift, modelWarnings_sift, hattributes]
  split
  · rfl
  · simp only [Except.map, List.filter_append, List.filter_flatMap, hloops, hkeys, hmodels]

end Element

/-! ## Children -/

section Lists

variable {α β : Type} {p q : α → Bool} {g : α → Option β}

/-- Filtering out some of what is dropped in front changes nothing in what is left. -/
theorem dropWhile_filter (h : ∀ x, p x = false → q x = true) (l : List α) :
    (l.filter q).dropWhile p = (l.dropWhile p).filter q := by
  induction l with
  | nil => rfl
  | cons x l ih =>
      cases hp : p x with
      | true => cases hq : q x <;> simp [hp, hq, ih]
      | false => simp [hp, h x hp]

theorem filterMap_takeWhile_filter (h : ∀ x, p x = false → q x = true)
    (hg : ∀ x, q x = false → g x = none) (l : List α) :
    ((l.filter q).takeWhile p).filterMap g = (l.takeWhile p).filterMap g := by
  induction l with
  | nil => rfl
  | cons x l ih =>
      cases hp : p x with
      | true => cases hq : q x <;> simp [hp, hq, ih, hg, List.filterMap_cons]
      | false => simp [hp, h x hp]

theorem head?_filter_dropWhile (h : ∀ x, p x = false → q x = true) (l : List α) :
    ((l.dropWhile p).filter q).head? = (l.dropWhile p).head? := by
  cases hrest : l.dropWhile p with
  | nil => rfl
  | cons x rest =>
      have hp : p x = false := by simpa [hrest] using List.head?_dropWhile_not p l
      simp [h x hp]

end Lists

namespace Element

variable {s : Sieve} {e : Element}

theorem sift_of_spaces (h : s.spaces) (e : Element) : e.sift s = e := by
  have hall : e.children.filter s.node = e.children :=
    Array.filter_eq_self.2 fun n _ => Sieve.node_of_spaces h n
  rw [sift, hall]

theorem sift_of_isEmpty (h : e.children = #[]) : e.sift s = e := by
  rw [sift, h]
  rcases e with ⟨⟩
  simp_all

@[simp] theorem sift_sift (s : Sieve) (e : Element) : (e.sift s).sift s = e.sift s := by
  simp [sift]

theorem withoutText_sift (s : Sieve) (e : Element) :
    (Assembly.withoutText e).sift s = Assembly.withoutText (e.sift s) := by
  have hchildren : (Assembly.withoutText e).children.filter s.node =
      (Assembly.withoutText (e.sift s)).children := by
    apply Array.toList_inj.1
    rw [Array.toList_filter, Assembly.children_withoutText, Assembly.children_withoutText, sift,
      Array.toList_filter, ← List.filter_reverse, List.filter_reverse,
      dropWhile_filter fun _ => Sieve.node_of_isText]
  rw [sift, hchildren]
  rfl

/-- The last child that an else branch finds is no text, and passes. -/
theorem back?_withoutText_sift (s : Sieve) (e : Element) :
    (Assembly.withoutText (e.sift s)).children.back? =
      (Assembly.withoutText e).children.back? := by
  rw [← withoutText_sift, sift, ← Array.getLast?_toList, ← Array.getLast?_toList,
    Array.toList_filter, Assembly.children_withoutText, List.filter_reverse,
    List.getLast?_reverse, List.getLast?_reverse,
    head?_filter_dropWhile fun _ => Sieve.node_of_isText]

/-- No space is left where spaces are held back. -/
theorem isSpace_of_mem_sift (h : ¬s.spaces) {n : Node} (hn : n ∈ (e.sift s).children) :
    n.isSpace = false := by
  have hnode := (Array.mem_filter.1 hn).2
  simpa [Sieve.node, h] using hnode

theorem children_sift_closedAt (h : ¬s.spaces) (span : Span) (e : Element) :
    (Assembly.closedAt span e).children.filter s.node = e.children.filter s.node := by
  rcases Assembly.children_eq_closedAt_append span e with ⟨rest, hrest, hspaces⟩
  have hgone : rest.filter s.node = [] := by
    refine List.filter_eq_nil_iff.2 fun n hn => ?_
    simp [Sieve.node, h, hspaces n hn]
  apply Array.toList_inj.1
  rw [Array.toList_filter, Array.toList_filter, hrest, List.filter_append, hgone,
    List.append_nil]

/-- A space behind the children goes anyway. -/
theorem closedAt_sift (s : Sieve) (span : Span) (e : Element) :
    (Assembly.closedAt span e).sift s = Assembly.closedAt span (e.sift s) := by
  by_cases hspaces : s.spaces
  · rw [sift_of_spaces hspaces, sift_of_spaces hspaces]
  · -- The sifted element has no space left to be dropped.
    have hback : (e.sift s).children.back?.any Node.isSpace = false := by
      cases hlast : (e.sift s).children.back? with
      | none => rfl
      | some n => exact isSpace_of_mem_sift hspaces (Array.mem_of_back? hlast)
    have hclosed : (Assembly.closedAt span (e.sift s)).children = e.children.filter s.node := by
      rw [Assembly.closedAt, hback]
      rfl
    rw [sift, children_sift_closedAt hspaces, ← hclosed]
    rfl

theorem withChild_sift {n : Node} (h : s.node n) (e : Element) :
    (Assembly.withChild n e).sift s = Assembly.withChild n (e.sift s) := by
  simp [sift, Assembly.withChild, h]

theorem withChild_sift_of_not {n : Node} (h : s.node n = false) (e : Element) :
    (Assembly.withChild n e).sift s = e.sift s := by
  simp [sift, Assembly.withChild, h]

end Element

/-! ## Text -/

namespace Assembly

variable {s : Sieve} {e : Element} {options : Options} {content text : String} {span : Span}

/-- The element with what a run of text adds to it. -/
def takeText (options : Options) (content : String) (span : Span) (e : Element) : Element :=
  match textIn? options e content with
  | none => e
  | some text => addText options text span e

theorem addText_space_sift (h : ¬s.spaces) (options : Options) (span : Span) (e : Element) :
    (addText options " " span e).sift s = e.sift s := by
  have hspace : s.node (.text " " span) = false := by
    simp [Sieve.node, h, Node.isSpace, Node.literal?]
  unfold addText
  rw [if_pos rfl]
  split
  · rfl
  · exact Element.withChild_sift_of_not hspace e

theorem addText_sift (h : text ≠ " ") (s : Sieve) (options : Options) (span : Span)
    (e : Element) :
    (addText options text span e).sift s = addText (options.sift s) text span (e.sift s) := by
  have hmarks : (options.sift s).marks = options.marks := rfl
  unfold addText
  rw [if_neg h, if_neg h, hmarks]
  split
  · exact Element.withChild_sift (by simp [Sieve.node, Node.isSpace, Node.literal?]) e
  · exact Element.withChild_sift (by simp [Sieve.node, Node.isSpace, Node.literal?, h]) e

/-- Where spaces pass, the flag about them is as it was. -/
theorem takeText_of_spaces (h : s.spaces) (options : Options) (content : String) (span : Span)
    (e : Element) : takeText (options.sift s) content span e = takeText options content span e := by
  have hkeeps : (options.sift s).preserveWhitespace = options.preserveWhitespace := by
    simp [Options.sift, h]
  have hmarks : (options.sift s).marks = options.marks := rfl
  simp only [takeText, textIn?, addText, hkeeps, hmarks]

/-- Blank text adds a space or nothing. -/
theorem takeText_blank_sift (h : ¬s.spaces) (hblank : content.toList.all Text.isBlank)
    (options : Options) (span : Span) (e : Element) :
    (takeText options content span e).sift s = e.sift s := by
  unfold takeText textIn?
  rw [if_pos hblank]
  split
  · rfl
  · next text htext =>
      split at htext
      · cases htext
        exact addText_space_sift h options span e
      · cases htext

/-- Whether a text adds a space may depend on the spaces before it, and nothing else does. -/
theorem takeText_sift (s : Sieve) (options : Options) (content : String) (span : Span)
    (e : Element) :
    (takeText options content span e).sift s =
      (takeText (options.sift s) content span (e.sift s)).sift s := by
  by_cases hspaces : s.spaces
  · rw [takeText_of_spaces hspaces, Element.sift_of_spaces hspaces e]
  by_cases hblank : content.toList.all Text.isBlank
  · rw [takeText_blank_sift hspaces hblank, takeText_blank_sift hspaces hblank,
      Element.sift_sift]
  -- The text itself is the same on both sides.
  have htext : textIn? (options.sift s) (e.sift s) content = textIn? options e content := by
    unfold textIn?
    rw [if_neg hblank, if_neg hblank]
    rfl
  unfold takeText
  rw [htext]
  split
  · rw [Element.sift_sift]
  · next text _ =>
      by_cases hspace : text = " "
      · rw [hspace, addText_space_sift hspaces, addText_space_sift hspaces, Element.sift_sift]
      · rw [← addText_sift hspace, Element.sift_sift]

end Assembly

/-! ## Assemblies -/

namespace Template

variable {s : Sieve} {t : Template} {f g : Element → Element}

theorem sift_of_spaces (h : s.spaces) (t : Template) : t.sift s = t := by
  refine ext_getElem? rfl fun j => ?_
  rw [getElem?_sift]
  cases t.elements[j]? with
  | none => rfl
  | some e => exact congrArg some (Element.sift_of_spaces h e)

@[simp] theorem sift_sift (s : Sieve) (t : Template) : (t.sift s).sift s = t.sift s := by
  simp [sift, Function.comp_def]

/-- A change of one element that commutes with sifting after sifting once more. -/
theorem modify_sift_sift (h : ∀ e, (f e).sift s = (g (e.sift s)).sift s) (t : Template)
    (id : ElementId) : (t.modify id f).sift s = ((t.sift s).modify id g).sift s := by
  refine ext_getElem? rfl fun j => ?_
  rw [getElem?_sift, getElem?_sift, getElem?_modify, getElem?_modify, getElem?_sift]
  cases t.elements[j]? with
  | none => simp
  | some e => by_cases hj : id = j <;> simp [hj, h]

end Template

namespace Assembly

variable {s : Sieve} {a b : Assembly} {id parent : ElementId} {e : Element}
  {f g : Element → Element} {options : Options} {size : Nat} {kind : Warning.Kind} {span : Span}

@[simp] theorem sift_template (s : Sieve) (a : Assembly) :
    (a.sift s).template = a.template.sift s := rfl

@[simp] theorem sift_enclosing (s : Sieve) (a : Assembly) :
    (a.sift s).enclosing = a.enclosing := rfl

@[simp] theorem sift_severalRoots (s : Sieve) (a : Assembly) :
    (a.sift s).severalRoots = a.severalRoots := rfl

@[simp] theorem sift_sift (s : Sieve) (a : Assembly) : (a.sift s).sift s = a.sift s := by
  simp [sift]

@[simp] theorem sift_empty (s : Sieve) : ({} : Assembly).sift s = {} := by
  simp [sift, Template.sift]

theorem warn_sift (h : Warning.isInterpolation ⟨kind, span⟩ = false) (s : Sieve)
    (a : Assembly) : (a.warn kind span).sift s = (a.sift s).warn kind span := by
  simp [sift, warn, Sieve.warning_of_isInterpolation h]

theorem warnElse_sift (s : Sieve) (a : Assembly) (e : Element) :
    (a.warnElse e).sift s = (a.sift s).warnElse e :=
  warn_sift rfl s a

theorem warnUnstable_sift (s : Sieve) (a : Assembly) (e : Element) :
    (a.warnUnstable e).sift s = (a.sift s).warnUnstable e := by
  unfold warnUnstable
  split
  · exact warn_sift rfl s a
  · split
    · exact warn_sift rfl s a
    · rfl

theorem modify_sift (h : ∀ e, (f e).sift s = g (e.sift s)) (a : Assembly) (id : ElementId) :
    (a.modify id f).sift s = (a.sift s).modify id g := by
  simp only [sift, modify, Template.modify_sift h]

theorem modify_eq_self (h : ∀ e, a.template.elements[id]? = some e → f e = e) :
    a.modify id f = a := by
  rw [modify, Template.modify_eq_self h]

theorem modify_congr (h : ∀ e, a.template.elements[id]? = some e → f e = g e) :
    a.modify id f = a.modify id g := by
  rw [modify, modify, Template.modify_congr h]

theorem addRoot_sift (s : Sieve) (a : Assembly) (id : ElementId) (e : Element) :
    (a.addRoot id e).sift s = (a.sift s).addRoot id e := by
  simp only [addRoot, warnUnstable_sift]
  split
  · rw [warnElse_sift]
    rfl
  · rfl

theorem addBranch_sift (s : Sieve) (a : Assembly) (head id : ElementId) (e : Element) :
    (a.addBranch head id e).sift s = (a.sift s).addBranch head id e :=
  modify_sift (f := withBranch _) (g := withBranch _) (fun _ => rfl) a head

theorem addSlot_sift (s : Sieve) (a : Assembly) (parent id : ElementId) (e : Element) :
    (a.addSlot parent id e).sift s = (a.sift s).addSlot parent id e :=
  modify_sift (f := withSlot _ _) (g := withSlot _ _) (fun _ => rfl) a parent

theorem addTopLevel_sift (s : Sieve) (a : Assembly) (root id : ElementId) (e : Element) :
    (a.addTopLevel root id e).sift s = (a.sift s).addTopLevel root id e := by
  have htakes := Template.any_sift s takesBranch (fun _ => rfl) a.template root
  unfold addTopLevel
  rw [sift_template, htakes, sift_severalRoots]
  split
  · split
    · rw [addBranch_sift, warnUnstable_sift]
    · exact warnElse_sift s a e
  · split
    · rfl
    · exact warn_sift rfl s { a with severalRoots := true }

theorem isInterpolation_droppedText {n : Node} {w : Warning} (h : droppedText n = some w) :
    w.isInterpolation = false := by
  unfold droppedText at h
  split at h
  · cases h
  · cases h
    rfl
  · split at h
    · cases h
    · cases h
      rfl

theorem droppedText_of_node {n : Node} (h : s.node n = false) : droppedText n = none := by
  have hspace := Sieve.isSpace_of_node h
  cases n with
  | element id => rfl
  | expression parsed text span => cases hspace
  | text text span =>
      have htext : text = " " := by simpa [Node.isSpace, Node.literal?] using hspace
      exact if_pos htext

/-- The spaces among the text that is dropped are dropped silently. -/
theorem warnings_dropText_sift (s : Sieve) (a : Assembly) (parent : ElementId) :
    (a.dropText parent).warnings.filter s.warning = ((a.sift s).dropText parent).warnings := by
  cases he : a.template.elements[parent]? with
  | none =>
      have he' : (a.sift s).template.elements[parent]? = none := by
        rw [sift_template, Template.getElem?_sift, he]
        rfl
      simp only [dropText, he, he']
      rfl
  | some e =>
      have he' : (a.sift s).template.elements[parent]? = some (e.sift s) := by
        rw [sift_template, Template.getElem?_sift, he]
        rfl
      have hpass : ∀ l : List Node, (l.filterMap droppedText).filter s.warning =
          l.filterMap droppedText := by
        refine fun l => Sieve.filter_eq_self fun w hw => ?_
        rcases List.mem_filterMap.1 hw with ⟨n, _, hn⟩
        exact isInterpolation_droppedText hn
      apply Array.toList_inj.1
      rw [Array.toList_filter, warnings_dropText he, warnings_dropText he', List.filter_append,
        hpass, Element.sift, Array.toList_filter, ← List.filter_reverse,
        filterMap_takeWhile_filter (fun _ => Sieve.node_of_isText) fun _ => droppedText_of_node]
      simp [sift]

theorem dropText_sift (s : Sieve) (a : Assembly) (parent : ElementId) :
    (a.dropText parent).sift s = (a.sift s).dropText parent := by
  have htemplate : (a.dropText parent).template.sift s = ((a.sift s).dropText parent).template := by
    rw [dropText_template, dropText_template]
    exact Template.modify_sift (Element.withoutText_sift s) a.template parent
  rw [sift, htemplate, warnings_dropText_sift, dropText_enclosing, severalRoots_dropText,
    ← sift_enclosing s, ← sift_severalRoots s, ← dropText_enclosing (a.sift s) parent,
    ← severalRoots_dropText (a.sift s) parent]

theorem lastElement?_dropText_sift (s : Sieve) (a : Assembly) (parent : ElementId) :
    ((a.dropText parent).sift s).lastElement? parent =
      (a.dropText parent).lastElement? parent := by
  have hback : ((a.dropText parent).sift s).template.elements[parent]?.bind (·.children.back?) =
      (a.dropText parent).template.elements[parent]?.bind (·.children.back?) := by
    rw [dropText_sift, dropText_template, dropText_template, Template.getElem?_modify,
      Template.getElem?_modify, if_pos rfl, if_pos rfl, sift_template, Template.getElem?_sift]
    cases a.template.elements[parent]? with
    | none => rfl
    | some e => exact Element.back?_withoutText_sift s e
  unfold lastElement?
  rw [hback]

theorem addElse_sift (s : Sieve) (a : Assembly) (parent id : ElementId) (e : Element) :
    (a.addElse parent id e).sift s = (a.sift s).addElse parent id e := by
  have hcondition := Template.any_sift s (·.directives.condition.isSome) (fun _ => rfl)
    (a.dropText parent).template
  simp only [addElse, ← dropText_sift, lastElement?_dropText_sift, sift_template, hcondition]
  split
  · exact warnElse_sift s _ e
  · split
    · exact addBranch_sift s _ _ id e
    · exact warnElse_sift s _ e

theorem addInside_sift (s : Sieve) (a : Assembly) (parent id : ElementId) (e : Element) :
    (a.addInside parent id e).sift s = (a.sift s).addInside parent id e := by
  unfold addInside
  split
  · exact addElse_sift s a parent id e
  · split
    · exact addSlot_sift s a parent id e
    · exact modify_sift (f := withChild _) (g := withChild _)
        (Element.withChild_sift (Sieve.node_of_isText rfl)) a parent

theorem link_sift (s : Sieve) (a : Assembly) (id : ElementId) (e : Element) :
    (a.link id e).sift s = (a.sift s).link id e := by
  unfold link
  rw [sift_enclosing, sift_template, Template.sift_root]
  split
  · exact addInside_sift s a _ id e
  · exact addRoot_sift s a id e
  · exact addTopLevel_sift s a _ id e

/-! ## Events -/

theorem extend_sift (h : e.sift s = e) (a : Assembly) (warnings : List Warning) :
    (a.extend e warnings).sift s = (a.sift s).extend e (warnings.filter s.warning) := by
  have hwarnings : (a.warnings ++ warnings).filter s.warning =
      a.warnings.filter s.warning ++ warnings.filter s.warning := by
    apply Array.toList_inj.1
    simp
  rw [sift, extend, Template.push_sift, h, hwarnings]
  rfl

theorem enter_sift (s : Sieve) (a : Assembly) (unary : Bool) (id : ElementId) :
    (a.enter unary id).sift s = (a.sift s).enter unary id := by
  unfold enter
  split
  · rfl
  · rfl

theorem openElement_sift (s : Sieve) (options : Options) (a : Assembly) (tag : StartTag)
    (unary : Bool) :
    (a.openElement options tag unary).map (sift s) =
      (a.sift s).openElement (options.sift s) tag unary := by
  have hsifted : Element.ofStartTag (options.sift s) (a.sift s).template
      (a.sift s).template.elements.size (a.sift s).enclosing.head? tag =
      (Element.ofStartTag options a.template a.template.elements.size a.enclosing.head? tag).map
        fun read => (read.1, read.2.filter s.warning) := by
    rw [sift_template, Template.size_sift]
    exact Element.ofStartTag_sift s options a.template _ _ tag
  cases hread : Element.ofStartTag options a.template a.template.elements.size
      a.enclosing.head? tag with
  | error error =>
      rw [hread] at hsifted
      unfold openElement
      dsimp only
      rw [hread, hsifted]
      rfl
  | ok read =>
      rcases read with ⟨e, warnings⟩
      rcases Element.ofStartTag_skeleton hread with ⟨_, _, hskeleton⟩
      have hnew : e.sift s = e :=
        Element.sift_of_isEmpty (congrArg Element.Skeleton.children hskeleton)
      rw [hread] at hsifted
      rw [openElement_of_read hread, openElement_of_read hsifted, Except.map, enter_sift, link_sift,
        extend_sift hnew, sift_template, Template.size_sift]

theorem closeElement_sift (s : Sieve) (a : Assembly) (span : Span) :
    (a.closeElement span).sift s = (a.sift s).closeElement span := by
  cases henclosing : a.enclosing with
  | nil => rw [closeElement_of_nil henclosing, closeElement_of_nil (a := a.sift s) henclosing]
  | cons id outer =>
      rw [closeElement_of_cons henclosing, closeElement_of_cons (a := a.sift s) henclosing]
      exact modify_sift (Element.closedAt_sift s span) { a with enclosing := outer } id

theorem textOutside_sift (s : Sieve) (size : Nat) (a : Assembly) (content : String)
    (span : Span) :
    (a.textOutside size content span).sift s = (a.sift s).textOutside size content span := by
  unfold textOutside
  dsimp only
  rw [sift_template, Template.sift_root]
  split
  · rfl
  · exact warn_sift rfl s a

theorem readText_outside (h : a.enclosing = []) (options : Options) (size : Nat)
    (content : String) (span : Span) :
    a.readText options size content span = a.textOutside size content span := by
  unfold readText
  rw [h]

/-- Inside an element, text changes that element alone. -/
theorem readText_inside {outer : List ElementId} (h : a.enclosing = parent :: outer)
    (options : Options) (size : Nat) (content : String) (span : Span) :
    a.readText options size content span =
      a.modify parent (takeText options content span) := by
  unfold readText
  rw [h]
  dsimp only
  -- The text is found outside of `modify`, for the same element.
  cases hin : a.template.elements[parent]?.bind (textIn? options · content) with
  | none =>
      refine (modify_eq_self fun e he => ?_).symm
      rw [he, Option.bind_some] at hin
      rw [takeText, hin]
  | some text =>
      refine modify_congr fun e he => ?_
      rw [he, Option.bind_some] at hin
      rw [takeText, hin]

theorem readText_sift (s : Sieve) (options : Options) (size : Nat) (a : Assembly)
    (content : String) (span : Span) :
    (a.readText options size content span).sift s =
      ((a.sift s).readText (options.sift s) size content span).sift s := by
  cases henclosing : a.enclosing with
  | nil =>
      rw [readText_outside henclosing, readText_outside (a := a.sift s) henclosing,
        ← textOutside_sift, sift_sift]
  | cons parent outer =>
      rw [readText_inside henclosing, readText_inside (a := a.sift s) henclosing]
      have htemplate := Template.modify_sift_sift (takeText_sift s options content span)
        a.template parent
      simp only [sift, modify, htemplate, Array.filter_filter, Bool.and_self]

theorem readText_of_spaces (h : s.spaces) (options : Options) (size : Nat) (a : Assembly)
    (content : String) (span : Span) :
    (a.readText options size content span).sift s =
      (a.sift s).readText (options.sift s) size content span := by
  cases henclosing : a.enclosing with
  | nil =>
      rw [readText_outside henclosing, readText_outside (a := a.sift s) henclosing,
        textOutside_sift]
  | cons parent outer =>
      rw [readText_inside henclosing, readText_inside (a := a.sift s) henclosing]
      refine modify_sift (fun e => ?_) a parent
      rw [takeText_of_spaces h, Element.sift_of_spaces h, Element.sift_of_spaces h]

/-- Where no space is held back, sifting an event loses nothing. -/
theorem feed_sift_of_spaces (h : s.spaces) {event : Event}
    (hwarned : ∀ w, event = .warned w → s.warning w) (options : Options) (size : Nat)
    (a : Assembly) :
    (feed options size a event).map (sift s) = feed (options.sift s) size (a.sift s) event := by
  cases event with
  | opened tag unary => exact openElement_sift s options a tag unary
  | closed name span => exact congrArg Except.ok (closeElement_sift s a span)
  | text content span => exact congrArg Except.ok (readText_of_spaces h options size a content span)
  | warned w => exact congrArg Except.ok (by simp [sift, hwarned w rfl])

theorem feed_sift {event : Event} (options : Options) (size : Nat) (a : Assembly) :
    (feed options size a event).map (sift s) =
      (feed (options.sift s) size (a.sift s) event).map (sift s) := by
  cases event with
  | opened tag unary =>
      rw [feed_opened, feed_opened, ← openElement_sift]
      cases a.openElement options tag unary with
      | error error => rfl
      | ok b => exact congrArg Except.ok (sift_sift s b).symm
  | closed name span =>
      refine congrArg Except.ok ?_
      rw [← closeElement_sift, sift_sift]
  | text content span => exact congrArg Except.ok (readText_sift s options size a content span)
  | warned w =>
      refine congrArg Except.ok ?_
      simp only [sift, Template.sift_sift, Array.filter_push, Array.filter_filter, Bool.and_self]

theorem finish_sift (s : Sieve) (size : Nat) (a : Assembly) :
    (a.finish size).sift s = (a.sift s).finish size := by
  unfold finish
  rw [sift_template, Template.sift_root]
  split
  · exact warn_sift rfl s a
  · rfl

end Assembly

/-! ## Runs -/

section Except

variable {ε α β γ δ : Type}

theorem except_map_map (f : α → β) (g : β → γ) (x : Except ε α) : (x.map f).map g = x.map (g ∘ f) :=
  (comp_map f g x).symm

/-- Two folds in step: what is seen of their states stays the same. -/
theorem map_foldlM_congr {f : β → α → Except ε β} {g : γ → α → Except ε γ}
    {u : β → δ} {v : γ → δ} {xs : List α} {b : β} {c : γ}
    (hstep : ∀ x ∈ xs, ∀ b c, u b = v c → (f b x).map u = (g c x).map v) (h : u b = v c) :
    (xs.foldlM f b).map u = (xs.foldlM g c).map v := by
  -- Both states vary: they are alike only in what is seen of them.
  induction xs generalizing b c with
  | nil => exact congrArg Except.ok h
  | cons x xs ih =>
      have hx := hstep x (List.mem_cons_self ..) b c h
      rw [List.foldlM_cons, List.foldlM_cons]
      cases hb : f b x with
      | error error =>
          cases hc : g c x with
          | error error' =>
              rw [hb, hc] at hx
              cases hx
              rfl
          | ok c' =>
              rw [hb, hc] at hx
              cases hx
      | ok b' =>
          cases hc : g c x with
          | error error =>
              rw [hb, hc] at hx
              cases hx
          | ok c' =>
              rw [hb, hc] at hx
              exact ih (fun y hy => hstep y (List.mem_cons_of_mem x hy)) (Except.ok.inj hx)

end Except

namespace Assembly

variable {s : Sieve} {a b : Assembly} {options options' : Options} {size : Nat}
  {events : List Event}

/-- Two runs whose options and assemblies only differ in what the sieve holds back. -/
theorem run_sift (hoptions : options.sift s = options'.sift s) (h : a.sift s = b.sift s)
    (size : Nat) (events : List Event) :
    (events.foldlM (feed options size) a).map (sift s) =
      (events.foldlM (feed options' size) b).map (sift s) := by
  -- Each event is compared with its feeding to the sifted assembly, under the sifted options.
  refine map_foldlM_congr (fun event _ a b hab => ?_) h
  rw [feed_sift options, feed_sift options', hoptions, hab]

theorem run_sift_of_spaces (hspaces : s.spaces)
    (hwarned : ∀ w, .warned w ∈ events → s.warning w) (options : Options) (size : Nat)
    (a : Assembly) :
    (events.foldlM (feed options size) a).map (sift s) =
      events.foldlM (feed (options.sift s) size) (a.sift s) := by
  -- Of the second run all is seen.
  have hrun : (events.foldlM (feed options size) a).map (sift s) =
      (events.foldlM (feed (options.sift s) size) (a.sift s)).map id := by
    refine map_foldlM_congr (fun event hevent a b hab => ?_) rfl
    rw [feed_sift_of_spaces hspaces (fun w hw => hwarned w (hw ▸ hevent)), hab, Except.map_id]
    rfl
  rwa [Except.map_id] at hrun

end Assembly

/-! ## The two flags -/

def Element.withoutSpaces (e : Element) : Element :=
  { e with children := e.children.filter (!·.isSpace) }

def Template.withoutSpaces (t : Template) : Template :=
  { t with elements := t.elements.map Element.withoutSpaces }

namespace Parsed

/-- The same warnings, and the template without the texts of one space. -/
def withoutSpaces (parsed : Parsed) : Parsed :=
  { parsed with template := parsed.template.withoutSpaces }

/-- The same template, and the warnings that are not about interpolation in attributes. -/
def withoutInterpolation (parsed : Parsed) : Parsed :=
  { parsed with warnings := parsed.warnings.filter (!·.isInterpolation) }

end Parsed

namespace Assembly

/-- What is returned of an assembly at the end of a source of `size` bytes. -/
def parsed (size : Nat) (a : Assembly) : Parsed :=
  { template := (a.finish size).template, warnings := (a.finish size).warnings.toList }

theorem withoutSpaces_comp_parsed (size : Nat) :
    Parsed.withoutSpaces ∘ parsed size = parsed size ∘ sift { spaces := false } := by
  funext a
  have hall : (a.finish size).warnings.filter (Sieve.warning { spaces := false }) =
      (a.finish size).warnings :=
    Array.filter_eq_self.2 fun _ _ => rfl
  rw [Function.comp_apply, Function.comp_apply, parsed, parsed, ← finish_sift, sift, hall]
  rfl

theorem withoutInterpolation_comp_parsed (size : Nat) :
    Parsed.withoutInterpolation ∘ parsed size = parsed size ∘ sift { interpolations := false } := by
  funext a
  rw [Function.comp_apply, Function.comp_apply, parsed, parsed, ← finish_sift, sift,
    Template.sift_of_spaces rfl, Array.toList_filter]
  rfl

end Assembly

theorem parse_eq_map (options : Options) (source : String) :
    parse options source =
      ((scan source).foldlM (Assembly.feed options (Text.byteLength source.toList)) {}).map
        (Assembly.parsed (Text.byteLength source.toList)) := by
  unfold parse
  dsimp only
  cases (scan source).foldlM (Assembly.feed options (Text.byteLength source.toList)) {} with
  | error error => rfl
  | ok a => rfl

/-- Keeping spaces adds texts of one space and nothing else. -/
theorem parse_preserveWhitespace (options : Options) (source : String) :
    (parse { options with preserveWhitespace := true } source).map Parsed.withoutSpaces =
      (parse { options with preserveWhitespace := false } source).map Parsed.withoutSpaces := by
  have hoptions : Options.sift { spaces := false } { options with preserveWhitespace := true } =
      Options.sift { spaces := false } { options with preserveWhitespace := false } := rfl
  have hrun := Assembly.run_sift hoptions (Eq.refl (Assembly.sift { spaces := false } {}))
    (Text.byteLength source.toList) (scan source)
  rw [parse_eq_map, parse_eq_map, except_map_map, except_map_map,
    Assembly.withoutSpaces_comp_parsed, ← except_map_map, ← except_map_map, hrun]

/-- Warning about interpolation adds those warnings and nothing else. -/
theorem parse_warnInterpolation (options : Options) (source : String) :
    parse { options with warnInterpolation := false } source =
      (parse { options with warnInterpolation := true } source).map
        Parsed.withoutInterpolation := by
  have hoptions : Options.sift { interpolations := false }
      { options with warnInterpolation := true } = { options with warnInterpolation := false } := by
    simp [Options.sift]
  have hwarned : ∀ w, .warned w ∈ scan source → Sieve.warning { interpolations := false } w :=
    fun w hw => Sieve.warning_of_isInterpolation
      (Warning.isInterpolation_of_isTagFault (isTagFault_scan hw))
  have hrun := Assembly.run_sift_of_spaces rfl hwarned { options with warnInterpolation := true }
    (Text.byteLength source.toList) {}
  rw [hoptions, Assembly.sift_empty] at hrun
  rw [parse_eq_map, parse_eq_map, except_map_map, Assembly.withoutInterpolation_comp_parsed,
    ← except_map_map, hrun]

/-- The flags change only what they are named for. Two readings that differ in whether spaces are
kept fail alike, or have the same warnings and, but for the texts of one space, the same template.
Two readings that differ in whether interpolation in attributes is reported fail alike, or have the
same template and, but for these reports, the same warnings. -/
theorem parse_flags (options : Options) (source : String) :
    (parse { options with preserveWhitespace := true } source).map Parsed.withoutSpaces =
        (parse { options with preserveWhitespace := false } source).map Parsed.withoutSpaces ∧
      parse { options with warnInterpolation := false } source =
        (parse { options with warnInterpolation := true } source).map
          Parsed.withoutInterpolation :=
  ⟨parse_preserveWhitespace options source, parse_warnInterpolation options source⟩

end TemplateMarkup
