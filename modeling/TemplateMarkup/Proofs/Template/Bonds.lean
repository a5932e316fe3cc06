import TemplateMarkup.Proofs.Template.Tree

/-!
# Bonds

How the elements of a template hang together is told by a part of each element, its
`Element.Bonds`: the role that its start tag gives it, and the elements it leads to. This file
follows that part alone through the assembly:

* `Template.net` — the bonds of all elements, in order,
* `Assembly.feed_net` — only a start event changes the net,
* `Assembly.Joins a e b` — the ways in which a new element `e` joins the net,
* `Assembly.Joins.gains` — what the bonds of one element can gain by that.
-/

namespace TemplateMarkup

namespace Element

/-- Whether an element is entered as a scoped slot: it has a scope and is no else branch. -/
def isScopedSlot (e : Element) : Bool :=
  e.directives.slotScope.isSome && !e.directives.isBranch

/-- The name under which a scoped slot is entered. -/
def slotKey (e : Element) : String :=
  e.directives.slotTarget.getD defaultSlot

/-- What decides where an element is linked. It never changes. -/
structure Role where
  parent : Option ElementId
  condition : Option String
  elseCondition : Option String
  isBranch : Bool
  isSlot : Bool
  slotKey : String
  deriving DecidableEq, Repr

def role (e : Element) : Role :=
  { parent := e.parent
    condition := e.directives.condition
    elseCondition := e.directives.elseCondition
    isBranch := e.directives.isBranch
    isSlot := e.isScopedSlot
    slotKey := e.slotKey }

/-- The role of an element, and the elements it leads to. -/
structure Bonds where
  role : Role
  children : List ElementId
  slots : List (String × ElementId)
  branches : List Branch
  deriving DecidableEq, Repr

def bonds (e : Element) : Bonds :=
  { role := e.role
    children := e.childIds
    slots := e.directives.scopedSlots
    branches := e.directives.branches }

/-- Bonds show neither texts nor spans. -/
theorem bonds_eq_of {e e' : Element} (hparent : e'.parent = e.parent)
    (hchildren : e'.childIds = e.childIds) (hdirectives : e'.directives = e.directives) :
    e'.bonds = e.bonds := by
  simp [bonds, role, isScopedSlot, slotKey, hparent, hchildren, hdirectives]

namespace Bonds

def addChild (id : ElementId) (c : Bonds) : Bonds :=
  { c with children := c.children ++ [id] }

def addSlot (key : String) (id : ElementId) (c : Bonds) : Bonds :=
  { c with slots := Assoc.set key id c.slots }

def addBranch (branch : Branch) (c : Bonds) : Bonds :=
  { c with branches := c.branches ++ [branch] }

end Bonds

/-- An element that has just been opened: it leads nowhere, and starts a chain if it has a
condition. -/
structure New (id : ElementId) (parent : Option ElementId) (e : Element) : Prop where
  parent_eq : e.role.parent = parent
  children_eq : e.bonds.children = []
  slots_eq : e.bonds.slots = []
  chain : (e.role.condition = none ∧ e.bonds.branches = []) ∨
    ∃ condition, e.role.condition = some condition ∧ e.role.isBranch = false ∧
      e.bonds.branches = [⟨some condition, id⟩]

theorem new_of_ofStartTag {options : Options} {t : Template} {id : ElementId}
    {parent : Option ElementId} {tag : StartTag} {e : Element} {warnings : List Warning}
    (h : ofStartTag options t id parent tag = .ok (e, warnings)) : e.New id parent := by
  rcases ofStartTag_skeleton h with ⟨_, _, hskeleton⟩
  have hchildren : e.children = #[] := congrArg Skeleton.children hskeleton
  refine ⟨congrArg Skeleton.parent hskeleton, ?_, congrArg Skeleton.scopedSlots hskeleton,
    ofStartTag_chain h⟩
  simp [bonds, childIds, hchildren]

end Element

open Element (Bonds)

/-! ## The net of a template -/

namespace Template

variable {t : Template} {f : Element → Element}

/-- The bonds of the elements, in order. -/
def net (t : Template) : List Bonds :=
  t.elements.toList.map Element.bonds

@[simp] theorem length_net (t : Template) : t.net.length = t.elements.size := by
  simp [net]

theorem getElem?_net (t : Template) (id : ElementId) :
    t.net[id]? = t.elements[id]?.map Element.bonds := by
  simp [net]

theorem exists_element_of_net {id : ElementId} {c : Bonds} (h : t.net[id]? = some c) :
    ∃ e, t.elements[id]? = some e ∧ e.bonds = c := by
  rw [getElem?_net] at h
  exact Option.map_eq_some_iff.1 h

theorem net_of_getElem? {id : ElementId} {e : Element} (h : t.elements[id]? = some e) :
    t.net[id]? = some e.bonds := by
  rw [getElem?_net, h]
  rfl

theorem parentAt_of_net {id : ElementId} {c : Bonds} (h : t.net[id]? = some c) :
    t.parentAt id = some c.role.parent := by
  rcases exists_element_of_net h with ⟨e, he, rfl⟩
  exact parentAt_of_getElem? he

@[simp] theorem net_push (t : Template) (e : Element) : (t.push e).net = t.net ++ [e.bonds] := by
  simp [net, push]

theorem net_modify {k : Bonds → Bonds} (hf : ∀ e, (f e).bonds = k e.bonds) (t : Template)
    (p : ElementId) : (t.modify p f).net = t.net.modify p k :=
  map_modify hf t p

/-- A change that is not seen in the bonds leaves the net alone. -/
theorem net_modify_eq (hf : ∀ e, (f e).bonds = e.bonds) (t : Template) (p : ElementId) :
    (t.modify p f).net = t.net := by
  rw [net_modify (k := fun c => c) hf]
  exact List.modify_id p t.net

end Template

namespace Assembly

variable {a b : Assembly} {id p : ElementId} {e : Element} {options : Options} {size : Nat}

/-! ## Events that leave the net alone -/

theorem bonds_withChild (id : ElementId) (e : Element) :
    (withChild (.element id) e).bonds = e.bonds.addChild id := by
  simp [Element.bonds, Element.role, Element.isScopedSlot, Element.slotKey, withChild,
    Bonds.addChild, Element.childIds]

theorem bonds_withSlot (key : String) (id : ElementId) (e : Element) :
    (withSlot key id e).bonds = e.bonds.addSlot key id := rfl

theorem bonds_withBranch (branch : Branch) (e : Element) :
    (withBranch branch e).bonds = e.bonds.addBranch branch := rfl

theorem net_addRoot (a : Assembly) (id : ElementId) (e : Element) :
    (a.addRoot id e).template.net = a.template.net := by
  rw [addRoot_template]
  rfl

theorem bonds_withoutText (e : Element) : (withoutText e).bonds = e.bonds :=
  Element.bonds_eq_of rfl (childIds_withoutText e) rfl

theorem net_dropText (a : Assembly) (p : ElementId) :
    (a.dropText p).template.net = a.template.net := by
  rw [dropText_template]
  exact Template.net_modify_eq bonds_withoutText _ _

theorem net_closeElement (a : Assembly) (span : Span) :
    (a.closeElement span).template.net = a.template.net := by
  cases henclosing : a.enclosing with
  | nil => rw [closeElement_of_nil henclosing]
  | cons id outer =>
      rw [closeElement_of_cons henclosing]
      refine Template.net_modify_eq (f := closedAt span) (fun e => ?_) _ _
      exact Element.bonds_eq_of rfl (childIds_closedAt span e) rfl

theorem net_readText (options : Options) (size : Nat) (a : Assembly) (content : String)
    (span : Span) : (a.readText options size content span).template.net = a.template.net := by
  rcases readText_template options size a content span with hsame | ⟨parent, text, _, htext⟩
  · rw [hsame]
  · rw [htext]
    refine Template.net_modify_eq (fun e => ?_) _ _
    have hparent := congrArg Header.parent (header_addText options text span e)
    exact Element.bonds_eq_of hparent (childIds_addText options text span e)
      (directives_addText options text span e)

/-- Only a start event changes the net. -/
theorem feed_net {event : Event} (h : feed options size a event = .ok b) :
    (∃ tag unary, event = .opened tag unary ∧ a.openElement options tag unary = .ok b) ∨
      b.template.net = a.template.net := by
  cases event with
  | opened tag unary => exact .inl ⟨tag, unary, rfl, h⟩
  | closed name span =>
      rw [feed_closed] at h
      cases h
      exact .inr (net_closeElement a span)
  | text content span =>
      rw [feed_text] at h
      cases h
      exact .inr (net_readText options size a content span)
  | warned warning =>
      rw [feed_warned] at h
      cases h
      exact .inr rfl

/-! ## Joining the net -/

/-- Behind the text that is dropped stands the last child that is an element. -/
theorem back?_withoutText (e : Element) :
    (withoutText e).children.back? = e.childIds.getLast?.map Node.element := by
  have hids := childIds_withoutText e
  have hchildren := children_withoutText e
  rw [Element.childIds_eq, hchildren, List.filterMap_reverse] at hids
  rw [← hids, List.getLast?_reverse, ← Array.getLast?_toList, hchildren, List.getLast?_reverse]
  cases hkept : e.children.toList.reverse.dropWhile Node.isText with
  | nil => rfl
  | cons n rest =>
      -- What is kept does not start with text.
      have hnot := List.head?_dropWhile_not Node.isText e.children.toList.reverse
      rw [hkept] at hnot
      cases n with
      | element id => rfl
      | expression parsed text span => simp [Node.isText] at hnot
      | text content span => simp [Node.isText] at hnot

theorem lastElement?_dropText (a : Assembly) (p : ElementId) :
    (a.dropText p).lastElement? p = a.template.net[p]?.bind (·.children.getLast?) := by
  rw [Template.getElem?_net, lastElement?, dropText_template, Template.getElem?_modify]
  cases he : a.template.elements[p]? with
  | none => simp
  | some e =>
      simp only [if_true, Option.map_some, Option.bind_some, back?_withoutText, Element.bonds]
      cases e.childIds.getLast? with
      | none => rfl
      | some id => rfl

/-- The ways in which the new element `e` joins the net of `a`; `warnings` are those behind it. -/
inductive Joins (a : Assembly) (e : Element) (warnings : Array Warning) : List Bonds → Prop where
  | root : a.template.net = [] → Joins a e warnings (a.template.net ++ [e.bonds])
  /-- Outside the root, without a chain to join. -/
  | outside :
      a.enclosing = [] → (a.severalRoots ∨ warnings ≠ #[]) →
      Joins a e warnings (a.template.net ++ [e.bonds])
  /-- A branch inside an element whose last child has no condition. -/
  | orphan {p : ElementId} {around : Bonds} :
      a.enclosing.head? = some p → a.template.net[p]? = some around → e.role.isBranch →
      (∀ head c, around.children.getLast? = some head → a.template.net[head]? = some c →
        c.role.condition = none) →
      warnings ≠ #[] → Joins a e warnings (a.template.net ++ [e.bonds])
  | child {p : ElementId} {c : Bonds} :
      a.enclosing.head? = some p → a.template.net[p]? = some c → e.role.isBranch = false →
      e.role.isSlot = false →
      Joins a e warnings
        ((a.template.net ++ [e.bonds]).modify p (·.addChild a.template.net.length))
  | slot {p : ElementId} {c : Bonds} :
      a.enclosing.head? = some p → a.template.net[p]? = some c → e.role.isSlot →
      Joins a e warnings
        ((a.template.net ++ [e.bonds]).modify p
          (·.addSlot e.role.slotKey a.template.net.length))
  /-- A branch outside the root, whose chain has not ended. -/
  | rootBranch {head : ElementId} {c : Bonds} :
      a.enclosing = [] → a.template.net[head]? = some c → c.role.parent = none →
      c.role.condition.isSome → c.branches.getLast?.any (·.condition.isSome) →
      e.role.isBranch →
      Joins a e warnings
        ((a.template.net ++ [e.bonds]).modify head
          (·.addBranch ⟨e.role.elseCondition, a.template.net.length⟩))
  /-- A branch inside an element whose last child has a condition. -/
  | branch {p head : ElementId} {around c : Bonds} :
      a.enclosing.head? = some p → a.template.net[p]? = some around →
      around.children.getLast? = some head → a.template.net[head]? = some c →
      c.role.parent = some p → c.role.condition.isSome → e.role.isBranch →
      Joins a e warnings
        ((a.template.net ++ [e.bonds]).modify head
          (·.addBranch ⟨e.role.elseCondition, a.template.net.length⟩))

@[simp] theorem enter_warnings (a : Assembly) (unary : Bool) (id : ElementId) :
    (a.enter unary id).warnings = a.warnings := by
  unfold enter
  split <;> rfl

/-- An element that is open is in the net. -/
theorem Treelike.net_of_enclosing {outer : List ElementId} (ha : a.Treelike)
    (h : a.enclosing = p :: outer) : ∃ c, a.template.net[p]? = some c := by
  have hlt : p < a.template.headers.length := ha.ordered.enclosing_lt p (by simp [outline, h])
  rw [Template.length_headers, ← Template.length_net] at hlt
  exact ⟨_, List.getElem?_eq_getElem hlt⟩

/-- A child is in the net, with the parent that lists it. -/
theorem Treelike.net_of_child {c : Bonds} {j : ElementId} (ha : a.Treelike)
    (hp : a.template.net[p]? = some c) (hj : j ∈ c.children) :
    ∃ child, a.template.net[j]? = some child ∧ child.role.parent = some p := by
  rcases Template.exists_element_of_net hp with ⟨around, haround, rfl⟩
  have hinner : j ∈ a.template.innerAt p := by
    rw [Template.innerAt_of_getElem? haround]
    exact List.mem_append_left _ hj
  rcases Template.exists_element_of_parentAt (ha.linked.inner_parent hinner) with
    ⟨child, hchild, hparent⟩
  exact ⟨child.bonds, Template.net_of_getElem? hchild, hparent⟩

theorem any_condition (t : Template) (id : ElementId) :
    t.elements[id]?.any (·.directives.condition.isSome) =
      t.net[id]?.any (·.role.condition.isSome) := by
  rw [Template.getElem?_net, Option.any_map]
  rfl

theorem any_takesBranch (t : Template) (id : ElementId) :
    t.elements[id]?.any takesBranch = t.net[id]?.any fun c =>
      c.role.condition.isSome && c.branches.getLast?.any (·.condition.isSome) := by
  rw [Template.getElem?_net, Option.any_map]
  rfl

theorem head?_enclosing {outer : List ElementId} (h : a.enclosing = p :: outer) :
    a.enclosing.head? = some p := by
  rw [h]
  rfl

/-- A new element that is linked has joined the net. -/
theorem Links.joins {warnings : List Warning} (ha : a.Treelike)
    (h : Links (a.extend e warnings) a.template.elements.size e b) :
    Joins a e b.warnings b.template.net := by
  have hnet : (a.extend e warnings).template.net = a.template.net ++ [e.bonds] :=
    Template.net_push _ _
  have hsize : a.template.elements.size = a.template.net.length := (Template.length_net _).symm
  -- Linking looks at the net with the new element in it, which shows the old elements unchanged.
  have hold : ∀ {i : ElementId} {c : Bonds}, a.template.net[i]? = some c →
      (a.extend e warnings).template.net[i]? = some c := by
    intro i c hi
    rw [hnet, List.getElem?_append_left (List.getElem?_eq_some_iff.1 hi).1]
    exact hi
  rw [hsize] at h
  cases h with
  | root _ hnone =>
      rcases ha.root with ⟨_, hzero⟩ | ⟨hsome, _⟩
      · rw [net_addRoot, hnet]
        exact .root (List.length_eq_zero_iff.1 (hsize ▸ hzero))
      · exact absurd (hnone.symm.trans hsome) (by simp)
  | @rootBranch root henclosing hroot hbranch htakes =>
      rcases ha.root with ⟨hnone, _⟩ | ⟨hsome, hzero⟩
      · exact absurd (hroot.symm.trans hnone) (by simp)
      · obtain rfl : root = 0 := Option.some.inj (hroot.symm.trans hsome)
        rcases Template.exists_element_of_parentAt hzero with ⟨first, hfirst, hparent⟩
        have hzero := Template.net_of_getElem? hfirst
        rw [any_takesBranch, hold hzero] at htakes
        simp only [Option.any_some, Bool.and_eq_true] at htakes
        rw [addBranch_template, warnUnstable_template,
          Template.net_modify (bonds_withBranch _), hnet]
        exact .rootBranch henclosing hzero hparent htakes.1 htakes.2 hbranch
  | rootOrphan henclosing _ _ _ =>
      rw [warnElse_template, hnet]
      exact .outside henclosing (.inr (by simp [warnElse, warn]))
  | secondRoot henclosing _ _ _ =>
      rw [warn_template, hnet]
      exact .outside henclosing (.inr (by simp [warn]))
  | laterRoot henclosing _ _ hseveral =>
      rw [hnet]
      exact .outside henclosing (.inl hseveral)
  | @branch p head outer henclosing hbranch hlast hcondition =>
      rcases ha.net_of_enclosing henclosing with ⟨around, haround⟩
      rw [lastElement?_dropText, hold haround] at hlast
      rcases ha.net_of_child haround (List.mem_of_getLast? hlast) with ⟨c, hc, hparent⟩
      rw [any_condition, net_dropText, hold hc] at hcondition
      rw [addBranch_template, Template.net_modify (bonds_withBranch _),
        net_dropText, hnet]
      exact .branch (head?_enclosing henclosing) haround hlast hc hparent hcondition hbranch
  | @orphan p outer henclosing hbranch hnone =>
      rcases ha.net_of_enclosing henclosing with ⟨around, haround⟩
      rw [warnElse_template, net_dropText, hnet]
      refine .orphan (head?_enclosing henclosing) haround hbranch ?_ (by simp [warnElse, warn])
      intro head c hlast hc
      have hcondition := hnone head (by rw [lastElement?_dropText, hold haround]; exact hlast)
      rw [any_condition, net_dropText, hold hc] at hcondition
      simpa using hcondition
  | @slot p outer henclosing hbranch hscope =>
      rcases ha.net_of_enclosing henclosing with ⟨around, haround⟩
      rw [addSlot_template, Template.net_modify (bonds_withSlot _ _), hnet]
      refine .slot (head?_enclosing henclosing) haround ?_
      simp [Element.role, Element.isScopedSlot, hbranch, hscope]
  | @child p outer henclosing hbranch hscope =>
      rcases ha.net_of_enclosing henclosing with ⟨around, haround⟩
      rw [addChild_template, Template.net_modify (bonds_withChild _), hnet]
      refine .child (head?_enclosing henclosing) haround (by simpa [Element.role] using hbranch) ?_
      simp [Element.role, Element.isScopedSlot, hscope]

/-- Opening reads a new element and lets it join the net. -/
theorem openElement_joins {tag : StartTag} {unary : Bool} (ha : a.Treelike)
    (h : a.openElement options tag unary = .ok b) :
    ∃ e : Element, e.New a.template.net.length a.enclosing.head? ∧
      Joins a e b.warnings b.template.net := by
  rcases openElement_eq_ok h with ⟨e, warnings, linked, hread, hlinks, rfl⟩
  refine ⟨e, ?_, ?_⟩
  · rw [Template.length_net]
    exact Element.new_of_ofStartTag hread
  · rw [enter_template, enter_warnings]
    exact hlinks.joins ha

/-! ## What the elements gain -/

section Gains

variable {warnings : Array Warning} {net : List Bonds} {i : ElementId} {c c' : Bonds}
  {parent : Option ElementId}

/-- What the bonds `c` of the element `i` can gain when `e` joins the net of `a`. -/
inductive Gains (a : Assembly) (e : Element) (i : ElementId) (c : Bonds) : Bonds → Prop where
  | nothing : Gains a e i c c
  | child :
      a.enclosing.head? = some i → e.role.isBranch = false → e.role.isSlot = false →
      Gains a e i c (c.addChild a.template.net.length)
  | slot :
      a.enclosing.head? = some i → e.role.isSlot →
      Gains a e i c (c.addSlot e.role.slotKey a.template.net.length)
  /-- Outside all elements, a chain gains nothing behind a plain else. -/
  | rootBranch :
      c.role.parent = none → c.role.condition.isSome →
      c.branches.getLast?.any (·.condition.isSome) → e.role.isBranch →
      Gains a e i c (c.addBranch ⟨e.role.elseCondition, a.template.net.length⟩)
  | branch {p : ElementId} {around : Bonds} :
      a.enclosing.head? = some p → c.role.parent = some p → a.template.net[p]? = some around →
      around.children.getLast? = some i → c.role.condition.isSome → e.role.isBranch →
      Gains a e i c (c.addBranch ⟨e.role.elseCondition, a.template.net.length⟩)

theorem Gains.role_eq (h : Gains a e i c c') : c'.role = c.role := by
  cases h with
  | nothing => rfl
  | child _ _ _ => rfl
  | slot _ _ => rfl
  | rootBranch _ _ _ _ => rfl
  | branch _ _ _ _ _ _ => rfl

theorem getElem?_concat_cases {new : Bonds} (h : (net ++ [new])[i]? = some c) :
    net[i]? = some c ∨ (i = net.length ∧ c = new) := by
  rw [List.getElem?_append] at h
  split at h
  · exact .inl h
  · next hlt =>
      rw [List.getElem?_singleton] at h
      split at h
      · next hzero =>
          have hle := Nat.le_of_not_lt hlt
          exact .inr ⟨Nat.le_antisymm (Nat.le_of_sub_eq_zero hzero) hle, (Option.some.inj h).symm⟩
      · cases h

theorem getElem?_modify_concat_self {new : Bonds} (k : Bonds → Bonds) (hp : net[p]? = some c) :
    ((net ++ [new]).modify p k)[p]? = some (k c) := by
  have hlt := (List.getElem?_eq_some_iff.1 hp).1
  rw [List.getElem?_modify, List.getElem?_append_left hlt, hp]
  simp

theorem getElem?_modify_concat_cases {new : Bonds} {k : Bonds → Bonds} (hp : net[p]? = some c)
    (h : ((net ++ [new]).modify p k)[i]? = some c') :
    (i ≠ p ∧ net[i]? = some c') ∨ (i = p ∧ c' = k c) ∨ (i = net.length ∧ c' = new) := by
  rw [List.getElem?_modify] at h
  rcases Option.map_eq_some_iff.1 h with ⟨old, hold, rfl⟩
  have hlt := (List.getElem?_eq_some_iff.1 hp).1
  rcases getElem?_concat_cases hold with hnet | ⟨rfl, rfl⟩
  · by_cases hpi : p = i
    · subst hpi
      rw [hp] at hnet
      cases hnet
      exact .inr (.inl ⟨rfl, by simp⟩)
    · exact .inl ⟨Ne.symm hpi, by simpa [hpi] using hnet⟩
  · exact .inr (.inr ⟨rfl, by simp [Nat.ne_of_lt hlt]⟩)

/-- The bonds of an element are those of the new one, or what it had and what it has gained. -/
theorem Joins.gains (h : Joins a e warnings net) (hi : net[i]? = some c') :
    (∃ c, a.template.net[i]? = some c ∧ Gains a e i c c') ∨
      (i = a.template.net.length ∧ c' = e.bonds) := by
  -- A new net has one of two forms: the new bonds are added, and one old element may change.
  have happend : ∀ {c'}, (a.template.net ++ [e.bonds])[i]? = some c' →
      (∃ c, a.template.net[i]? = some c ∧ Gains a e i c c') ∨
        (i = a.template.net.length ∧ c' = e.bonds) := by
    intro c' hi
    rcases getElem?_concat_cases hi with hold | hnew
    · exact .inl ⟨c', hold, .nothing⟩
    · exact .inr hnew
  have hmodify : ∀ {p c c'} {k : Bonds → Bonds}, a.template.net[p]? = some c →
      ((a.template.net ++ [e.bonds]).modify p k)[i]? = some c' → Gains a e p c (k c) →
      (∃ c, a.template.net[i]? = some c ∧ Gains a e i c c') ∨
        (i = a.template.net.length ∧ c' = e.bonds) := by
    intro p c c' k hp hi hgains
    rcases getElem?_modify_concat_cases hp hi with ⟨_, hold⟩ | ⟨rfl, rfl⟩ | hnew
    · exact .inl ⟨c', hold, .nothing⟩
    · exact .inl ⟨c, hp, hgains⟩
    · exact .inr hnew
  cases h with
  | root _ => exact happend hi
  | outside _ _ => exact happend hi
  | orphan _ _ _ _ _ => exact happend hi
  | child htop hp hbranch hslot => exact hmodify hp hi (.child htop hbranch hslot)
  | slot htop hp hslot => exact hmodify hp hi (.slot htop hslot)
  | rootBranch _ hc hparent hcondition hopen hbranch =>
      exact hmodify hc hi (.rootBranch hparent hcondition hopen hbranch)
  | branch htop hp hlast hc hparent hcondition hbranch =>
      exact hmodify hc hi (.branch htop hparent hp hlast hcondition hbranch)

theorem Joins.length_eq (h : Joins a e warnings net) :
    net.length = a.template.net.length + 1 := by
  cases h with
  | root _ => simp
  | outside _ _ => simp
  | orphan _ _ _ _ _ => simp
  | child _ _ _ _ => simp
  | slot _ _ _ => simp
  | rootBranch _ _ _ _ _ _ => simp
  | branch _ _ _ _ _ _ _ => simp

theorem Joins.exists_gains (h : Joins a e warnings net) (hi : a.template.net[i]? = some c) :
    ∃ c', net[i]? = some c' ∧ Gains a e i c c' := by
  have hlt := (List.getElem?_eq_some_iff.1 hi).1
  have hlt' : i < net.length := by
    rw [h.length_eq]
    exact Nat.lt_succ_of_lt hlt
  have hnet := List.getElem?_eq_getElem hlt'
  refine ⟨_, hnet, ?_⟩
  rcases h.gains hnet with ⟨c', hc', hgains⟩ | ⟨rfl, _⟩
  · rw [hi] at hc'
    cases hc'
    exact hgains
  · exact absurd hlt (Nat.lt_irrefl _)

/-- Every element keeps its role. -/
theorem Joins.role (h : Joins a e warnings net) (hi : a.template.net[i]? = some c) :
    ∃ c', net[i]? = some c' ∧ c'.role = c.role := by
  rcases h.exists_gains hi with ⟨c', hc', hgains⟩
  exact ⟨c', hc', hgains.role_eq⟩

theorem Joins.new (h : Joins a e warnings net) :
    net[a.template.net.length]? = some e.bonds := by
  have hlt : a.template.net.length < net.length := by
    rw [h.length_eq]
    exact Nat.lt_succ_self _
  have hnet := List.getElem?_eq_getElem hlt
  rcases h.gains hnet with ⟨c, hc, _⟩ | ⟨_, heq⟩
  · exact absurd (List.getElem?_eq_some_iff.1 hc).1 (Nat.lt_irrefl _)
  · rw [hnet, heq]

/-- What holds of the empty net, and what every new element keeps, holds behind a run. -/
theorem net_invariant {P : List Bonds → Prop} (hempty : P [])
    (hjoins : ∀ {a : Assembly} {e : Element} {warnings : Array Warning} {net : List Bonds},
      a.Treelike → e.New a.template.net.length a.enclosing.head? → Joins a e warnings net →
      P a.template.net → P net)
    {events : List Event} (hrun : events.foldlM (feed options size) {} = .ok b) :
    P b.template.net := by
  -- The tree is carried along: a parent or a root that an element joins has to be in the net.
  have hkeep : ∀ {event : Event} {current next : Assembly},
      feed options size current event = .ok next →
      current.Treelike ∧ P current.template.net → next.Treelike ∧ P next.template.net := by
    rintro event current next hfeed ⟨htree, hnet⟩
    refine ⟨htree.feed hfeed, ?_⟩
    rcases feed_net hfeed with ⟨tag, unary, _, hopen⟩ | hsame
    · rcases openElement_joins htree hopen with ⟨e, hnew, hjoined⟩
      exact hjoins htree hnew hjoined hnet
    · rw [hsame]
      exact hnet
  exact (foldlM_invariant (P := fun a => a.Treelike ∧ P a.template.net) hkeep hrun
    ⟨treelike_empty, hempty⟩).2

/-! ## Links fit the roles -/

/-- The elements that the bonds of the element `id` lead to have the roles for it. -/
structure Sorted (net : List Bonds) (id : ElementId) (c : Bonds) : Prop where
  child : ∀ j ∈ c.children,
    ∃ x, net[j]? = some x ∧ x.role.isBranch = false ∧ x.role.isSlot = false
  slot : ∀ entry ∈ c.slots,
    ∃ x, net[entry.2]? = some x ∧ x.role.isBranch = false ∧ x.role.isSlot ∧
      x.role.slotKey = entry.1
  branch : ∀ b ∈ c.branches, b.block = id ∨
    ∃ x, net[b.block]? = some x ∧ x.role.isBranch ∧ x.role.elseCondition = b.condition

theorem Sorted.mono {net' : List Bonds} (h : Sorted net i c)
    (hrole : ∀ {j : ElementId} {x : Bonds}, net[j]? = some x →
      ∃ x', net'[j]? = some x' ∧ x'.role = x.role) :
    Sorted net' i c where
  child := by
    intro j hj
    rcases h.child j hj with ⟨x, hx, hfits⟩
    rcases hrole hx with ⟨x', hx', heq⟩
    exact ⟨x', hx', by rwa [heq]⟩
  slot := by
    intro entry hentry
    rcases h.slot entry hentry with ⟨x, hx, hfits⟩
    rcases hrole hx with ⟨x', hx', heq⟩
    exact ⟨x', hx', by rwa [heq]⟩
  branch := by
    intro b hb
    rcases h.branch b hb with hself | ⟨x, hx, hfits⟩
    · exact .inl hself
    · rcases hrole hx with ⟨x', hx', heq⟩
      exact .inr ⟨x', hx', by rwa [heq]⟩

theorem isBranch_of_isSlot (h : e.role.isSlot) : e.role.isBranch = false := by
  simp only [Element.role, Element.isScopedSlot, Bool.and_eq_true, Bool.not_eq_true'] at h
  exact h.2

theorem Sorted.addBranch {j : ElementId} (h : Sorted net i c) (hj : net[j]? = some e.bonds)
    (hbranch : e.role.isBranch) : Sorted net i (c.addBranch ⟨e.role.elseCondition, j⟩) := by
  refine { h with branch := ?_ }
  intro b hb
  rcases List.mem_append.1 hb with hb | hb
  · exact h.branch b hb
  · rw [List.mem_singleton.1 hb]
    exact .inr ⟨e.bonds, hj, hbranch, rfl⟩

/-- A new element keeps the links sorted. -/
theorem Joins.sorted (h : Joins a e warnings net) (hnew : e.New a.template.net.length parent)
    (hall : ∀ {i c}, a.template.net[i]? = some c → Sorted a.template.net i c)
    (hi : net[i]? = some c') : Sorted net i c' := by
  rcases h.gains hi with ⟨c, hc, hgains⟩ | ⟨rfl, rfl⟩
  · have hold := (hall hc).mono h.role
    cases hgains with
    | nothing => exact hold
    | child _ hbranch hslot =>
        refine { hold with child := ?_ }
        intro j hj
        rcases List.mem_append.1 hj with hj | hj
        · exact hold.child j hj
        · rw [List.mem_singleton.1 hj]
          exact ⟨e.bonds, h.new, hbranch, hslot⟩
    | slot _ hslot =>
        refine { hold with slot := ?_ }
        intro entry hentry
        rcases Assoc.mem_set hentry with hentry | rfl
        · exact hold.slot entry hentry
        · exact ⟨e.bonds, h.new, isBranch_of_isSlot hslot, hslot, rfl⟩
    | rootBranch _ _ _ hbranch => exact hold.addBranch h.new hbranch
    | branch _ _ _ _ _ hbranch => exact hold.addBranch h.new hbranch
  · -- The new element leads nowhere but to itself.
    refine ⟨by simp [hnew.children_eq], by simp [hnew.slots_eq], ?_⟩
    intro b hb
    rcases hnew.chain with ⟨_, hnone⟩ | ⟨condition, _, _, hself⟩
    · rw [hnone] at hb
      cases hb
    · rw [hself, List.mem_singleton] at hb
      exact .inl (by rw [hb])

theorem sorted_run {events : List Event} (hrun : events.foldlM (feed options size) {} = .ok b)
    (hi : b.template.net[i]? = some c) : Sorted b.template.net i c := by
  have hall : ∀ i c, b.template.net[i]? = some c → Sorted b.template.net i c := by
    refine net_invariant (P := fun net => ∀ i c, net[i]? = some c → Sorted net i c) (by simp) ?_
      hrun
    intro a e warnings net _ hnew hjoins hall i c hi
    exact hjoins.sorted hnew (fun hi => hall _ _ hi) hi
  exact hall i c hi

end Gains

end Assembly
end TemplateMarkup
