import TemplateMarkup.Proofs.Template.Linked

/-!
# A template is a tree

* `Assembly.Links.linked` — every way of linking a new element keeps the links in order,
* `Assembly.Treelike` — what holds of an assembly between any two events,
* `Template.IsTree` — what a template as a whole has from that,
* `parse_isTree` — every parsed template is such a tree.
-/

namespace TemplateMarkup

/-! ## Assembling keeps the invariant -/

namespace Assembly

variable {a b : Assembly} {id parent head : ElementId} {e : Element} {options : Options}
  {size : Nat}

theorem parentAt_dropText (a : Assembly) (parent j : ElementId) :
    (a.dropText parent).template.parentAt j = a.template.parentAt j := by
  rw [dropText_template]
  exact Template.parentAt_modify (f := withoutText) (fun _ => rfl) _ _ _

theorem targetsAt_dropText (a : Assembly) (parent i : ElementId) :
    (a.dropText parent).template.targetsAt i = a.template.targetsAt i := by
  have hinner := Template.innerAt_modify inner_withoutText a.template parent i
  have hfollowers := Template.followersAt_modify (f := withoutText) (fun _ _ => rfl) a.template
    parent i
  simp [Template.targetsAt, dropText_template, hinner, hfollowers]

/-- The last element among the children of an element has that element as its parent. -/
theorem parentAt_lastElement? (ha : a.template.Linked) (h : a.lastElement? parent = some head) :
    a.template.parentAt head = some (some parent) := by
  unfold lastElement? at h
  split at h
  · next last hback =>
      cases h
      rcases Option.bind_eq_some_iff.1 hback with ⟨p, hp, hlast⟩
      refine ha.inner_parent ?_
      rw [Template.innerAt_of_getElem? hp]
      refine List.mem_append_left _ ?_
      rw [Element.childIds_eq, List.mem_filterMap]
      exact ⟨.element head, by simpa using Array.mem_of_back? hlast, rfl⟩
  · cases h

/-- The element `id` is there, but nothing leads to it yet. -/
structure Fresh (a : Assembly) (id : ElementId) : Prop where
  linked : a.template.Linked
  parentAt_eq : a.template.parentAt id = some a.enclosing.head?
  not_mem : ∀ i, id ∉ a.template.targetsAt i

/-- Every way of linking a new element keeps the links in order. -/
theorem Links.linked (h : Links a id e b) (ha : a.Fresh id)
    (hroot : ∀ root, a.template.root = some root →
      a.template.parentAt root = some none ∧ 0 < id)
    (hpos : a.enclosing ≠ [] → 0 < id) : b.template.Linked := by
  cases h with
  | root _ _ =>
      rw [addRoot_template]
      exact ha.linked.congr (fun _ => rfl) (fun _ => rfl) (fun hj => hj)
  | @rootBranch root henclosing hsome _ _ =>
      -- The root and its further branches stand outside all elements.
      rcases hroot root hsome with ⟨houtside, hpos⟩
      rw [addBranch_template, warnUnstable_template]
      refine ha.linked.withBranch hpos ha.not_mem _ ?_
      rw [ha.parentAt_eq, houtside, henclosing]
      rfl
  | rootOrphan _ _ _ _ => exact ha.linked
  | secondRoot _ _ _ _ => exact ha.linked
  | laterRoot _ _ _ _ => exact ha.linked
  | @branch parent head outer henclosing _ hlast _ =>
      have hdropped : (a.dropText parent).template.Linked := by
        rw [dropText_template]
        exact ha.linked.withoutText parent
      rw [addBranch_template]
      refine hdropped.withBranch (hpos (by simp [henclosing])) ?_ _ ?_
      · intro i
        rw [targetsAt_dropText]
        exact ha.not_mem i
      · -- Both the head of the chain and the new branch stand inside `parent`.
        rw [parentAt_lastElement? hdropped hlast, parentAt_dropText, ha.parentAt_eq, henclosing]
        rfl
  | orphan _ _ _ =>
      rw [warnElse_template, dropText_template]
      exact ha.linked.withoutText _
  | slot henclosing _ _ =>
      rw [addSlot_template]
      refine ha.linked.withSlot (hpos (by simp [henclosing])) ha.not_mem _ ?_
      rw [ha.parentAt_eq, henclosing]
      rfl
  | child henclosing _ _ =>
      rw [addChild_template]
      refine ha.linked.withChild (hpos (by simp [henclosing])) ha.not_mem ?_
      rw [ha.parentAt_eq, henclosing]
      rfl

theorem Links.parentAt_eq (h : Links a id e b) (j : ElementId) :
    b.template.parentAt j = a.template.parentAt j := by
  rw [Template.parentAt_eq, Template.parentAt_eq, h.headers_eq]

/-- Only the first element outside all others becomes the root. -/
theorem Links.root_eq (h : Links a id e b) :
    (a.enclosing = [] ∧ a.template.root = none ∧ b.template.root = some id) ∨
      ((a.enclosing ≠ [] ∨ a.template.root ≠ none) ∧ b.template.root = a.template.root) := by
  cases h with
  | root henclosing hnone => exact .inl ⟨henclosing, hnone, by rw [addRoot_template]⟩
  | rootBranch _ hsome _ _ => exact .inr ⟨.inr (by simp [hsome]), by simp⟩
  | rootOrphan _ hsome _ _ => exact .inr ⟨.inr (by simp [hsome]), by simp⟩
  | secondRoot _ hsome _ _ => exact .inr ⟨.inr (by simp [hsome]), by simp⟩
  | laterRoot _ hsome _ _ => exact .inr ⟨.inr (by simp [hsome]), rfl⟩
  | branch henclosing _ _ _ =>
      exact .inr ⟨.inl (by simp [henclosing]), by simp [dropText_template]⟩
  | orphan henclosing _ _ =>
      exact .inr ⟨.inl (by simp [henclosing]), by simp [dropText_template]⟩
  | slot henclosing _ _ => exact .inr ⟨.inl (by simp [henclosing]), by simp⟩
  | child henclosing _ _ => exact .inr ⟨.inl (by simp [henclosing]), by simp⟩

/-- What holds of an assembly at every stage. -/
structure Treelike (a : Assembly) : Prop where
  linked : a.template.Linked
  ordered : a.outline.Ordered
  root : (a.template.root = none ∧ a.template.elements.size = 0) ∨
    (a.template.root = some 0 ∧ a.template.parentAt 0 = some none)

theorem treelike_empty : Treelike {} where
  linked := by
    -- Without elements there are no links at all.
    have hnone : ∀ i, Template.targetsAt {} i = [] := by
      intro i
      simp [Template.targetsAt, Template.innerAt, Template.followersAt]
    constructor
    · intro i j hj
      simp [hnone] at hj
    · intro i
      simp [hnone]
    · intro i i' j hj
      simp [hnone] at hj
    · intro i j hj
      simp [Template.innerAt] at hj
    · intro i j hj
      simp [Template.followersAt] at hj
  ordered := Outline.ordered_nil
  root := .inl ⟨rfl, rfl⟩

/-- Without a root there is nothing around the next element. -/
theorem Treelike.enclosing_eq_nil (ha : a.Treelike) (hsize : a.template.elements.size = 0) :
    a.enclosing = [] := by
  apply List.eq_nil_iff_forall_not_mem.2
  intro id hid
  have hlt : id < a.template.headers.length := ha.ordered.enclosing_lt id hid
  rw [Template.length_headers, hsize] at hlt
  exact Nat.not_lt_zero _ hlt

/-- A new element leads nowhere. -/
theorem inner_followers_of_ofStartTag {t : Template} {parent : Option ElementId} {tag : StartTag}
    {warnings : List Warning}
    (h : Element.ofStartTag options t id parent tag = .ok (e, warnings)) :
    e.parent = parent ∧ e.inner = [] ∧ e.followers id = [] := by
  rcases Element.ofStartTag_skeleton h with ⟨branches, hblocks, hskeleton⟩
  have hparent : e.parent = parent := congrArg Element.Skeleton.parent hskeleton
  have hchildren : e.children = #[] := congrArg Element.Skeleton.children hskeleton
  have hslots : e.directives.scopedSlots = [] :=
    congrArg Element.Skeleton.scopedSlots hskeleton
  have hbranches : e.directives.branches = branches :=
    congrArg Element.Skeleton.branches hskeleton
  refine ⟨hparent, by simp [Element.inner, Element.childIds, hchildren, hslots], ?_⟩
  simpa [Element.followers, hbranches] using hblocks

theorem Treelike.extend_fresh {tag : StartTag} {warnings : List Warning} (ha : a.Treelike)
    (hread : Element.ofStartTag options a.template a.template.elements.size a.enclosing.head?
      tag = .ok (e, warnings)) : (a.extend e warnings).Fresh a.template.elements.size := by
  rcases inner_followers_of_ofStartTag hread with ⟨hparent, hinner, hfollowers⟩
  refine ⟨ha.linked.push hinner hfollowers, ?_, ?_⟩
  · rw [Template.parentAt_of_getElem? (e := e) (by simp [Template.push]), hparent]
    rfl
  · intro i hmem
    rcases Template.targetsAt_push hinner hfollowers i with ⟨hin, hfol⟩
    refine ha.linked.size_not_mem i ?_
    simpa [Template.targetsAt, hin, hfol] using hmem

/-- The first element becomes the root; for any other the root is there. -/
theorem Treelike.root_extend (ha : a.Treelike) (e : Element) (warnings : List Warning) :
    ((a.extend e warnings).enclosing = [] ∧ (a.extend e warnings).template.root = none ∧
      a.template.elements.size = 0) ∨
    ((a.extend e warnings).template.root = some 0 ∧
      (a.extend e warnings).template.parentAt 0 = some none ∧ 0 < a.template.elements.size) := by
  rcases ha.root with ⟨hnone, hsize⟩ | ⟨hsome, hzero⟩
  · exact .inl ⟨ha.enclosing_eq_nil hsize, hnone, hsize⟩
  · refine .inr ⟨hsome, Template.parentAt_push_of_some hzero, ?_⟩
    apply Nat.pos_of_ne_zero
    intro hsize
    rw [Template.parentAt_eq_none_iff.2 (Nat.le_of_eq hsize)] at hzero
    cases hzero

theorem openElement_treelike {tag : StartTag} {unary : Bool} (ha : a.Treelike)
    (h : a.openElement options tag unary = .ok b) : b.Treelike := by
  have hordered : b.outline.Ordered := by
    rw [openElement_outline h]
    exact ha.ordered.step _
  rcases openElement_eq_ok h with ⟨e, warnings, linked, hread, hlinks, rfl⟩
  have hfresh := ha.extend_fresh hread
  have hroots := hlinks.root_eq
  rcases ha.root_extend e warnings with ⟨houtside, hnone, hsize⟩ | ⟨hsome, hzero, hpos⟩
  · -- The very first element: it becomes the root, and nothing else can happen to it.
    refine ⟨?_, hordered, .inr ⟨?_, ?_⟩⟩
    · rw [enter_template]
      refine hlinks.linked hfresh ?_ (fun hne => absurd houtside hne)
      intro root hroot
      rw [hnone] at hroot
      cases hroot
    · rcases hroots with ⟨_, _, hroot⟩ | ⟨hne | hne, _⟩
      · rw [enter_template, hroot, hsize]
      · exact absurd houtside hne
      · exact absurd hnone hne
    · have hparent := hfresh.parentAt_eq
      rw [hsize, houtside] at hparent
      rw [enter_template, hlinks.parentAt_eq]
      exact hparent
  · -- The root is there already and stays the root.
    refine ⟨?_, hordered, .inr ⟨?_, ?_⟩⟩
    · rw [enter_template]
      refine hlinks.linked hfresh ?_ (fun _ => hpos)
      intro root hroot
      rw [hsome] at hroot
      cases hroot
      exact ⟨hzero, hpos⟩
    · rcases hroots with ⟨_, hnone, _⟩ | ⟨_, hroot⟩
      · rw [hsome] at hnone
        cases hnone
      · rw [enter_template, hroot, hsome]
    · rw [enter_template, hlinks.parentAt_eq]
      exact hzero

/-- Changes inside an element leave the tree as it is. -/
theorem Treelike.of_modify {p : ElementId} {f : Element → Element} (ha : a.Treelike)
    (hordered : b.outline.Ordered) (htemplate : b.template = a.template.modify p f)
    (hparent : ∀ e, (f e).parent = e.parent) (hlinked : (a.template.modify p f).Linked) :
    b.Treelike := by
  refine ⟨htemplate ▸ hlinked, hordered, ?_⟩
  rw [htemplate, Template.modify_root, Template.size_modify, Template.parentAt_modify hparent]
  exact ha.root

/-- Every event keeps the invariant. -/
theorem Treelike.feed {event : Event} (ha : a.Treelike)
    (h : Assembly.feed options size a event = .ok b) : b.Treelike := by
  have hordered : b.outline.Ordered := by
    rw [feed_outline h]
    exact ha.ordered.step event
  cases event with
  | opened tag unary =>
      rw [feed_opened] at h
      exact openElement_treelike ha h
  | closed name span =>
      rw [feed_closed] at h
      cases h
      cases henclosing : a.enclosing with
      | nil =>
          rw [closeElement_of_nil henclosing]
          exact ha
      | cons id outer =>
          rw [closeElement_of_cons henclosing] at hordered ⊢
          exact ha.of_modify (f := closedAt span) hordered rfl (fun _ => rfl)
            (ha.linked.closedAt id span)
  | text content span =>
      rw [feed_text] at h
      cases h
      rcases readText_template options size a content span with
        hsame | ⟨parent, text, _, htext⟩
      · refine ⟨?_, hordered, ?_⟩
        · rw [hsame]
          exact ha.linked
        · rw [hsame]
          exact ha.root
      · have hparent : ∀ e, (addText options text span e).parent = e.parent := by
          intro e
          exact congrArg Header.parent (header_addText options text span e)
        exact ha.of_modify hordered htext hparent (ha.linked.addText parent options text span)
  | warned warning =>
      rw [feed_warned] at h
      cases h
      exact ⟨ha.linked, ha.ordered, ha.root⟩

theorem Treelike.run {events : List Event} (ha : a.Treelike)
    (h : events.foldlM (Assembly.feed options size) a = .ok b) : b.Treelike :=
  foldlM_invariant (P := Treelike) (fun hfeed hcurrent => hcurrent.feed hfeed) h ha

end Assembly

/-! ## The whole template -/

namespace Template

variable {t : Template}

/-- A tree without sharing: the root is the first element and nothing leads to it, and every
other element is reached at most once, from where it stands in the source. -/
structure IsTree (t : Template) : Prop where
  /-- The root is the first element, outside all others, and no link leads to it. -/
  root : ∀ root, t.root = some root →
    root = 0 ∧ (∃ e, t.elements[root]? = some e ∧ e.parent = none) ∧ root ∉ t.targets
  /-- Parents come before their children. -/
  parent_lt : ∀ {id : ElementId} {e : Element}, t.elements[id]? = some e →
    ∀ parent ∈ e.parent, parent < id
  /-- Children, scoped slots and branches are elements of the template. -/
  inner_lt : ∀ {id : ElementId} {e : Element}, t.elements[id]? = some e →
    ∀ j ∈ e.inner, j < t.elements.size
  branch_lt : ∀ {id : ElementId} {e : Element}, t.elements[id]? = some e →
    ∀ b ∈ e.directives.branches, b.block < t.elements.size
  /-- All links together lead to different elements. -/
  targets_nodup : t.targets.Nodup
  /-- Children and scoped slots have the element they are inside as their parent. -/
  inner_parent : ∀ {id : ElementId} {e : Element}, t.elements[id]? = some e →
    ∀ j ∈ e.inner, ∃ child, t.elements[j]? = some child ∧ child.parent = some id
  /-- The branches of a chain have the parent of its head. -/
  branch_parent : ∀ {id : ElementId} {e : Element}, t.elements[id]? = some e →
    ∀ b ∈ e.directives.branches, b.block ≠ id →
      ∃ branch, t.elements[b.block]? = some branch ∧ branch.parent = e.parent

theorem mem_targets {j : ElementId} : j ∈ t.targets ↔ ∃ i, j ∈ t.targetsAt i := by
  constructor
  · intro hj
    rcases List.mem_flatMap.1 hj with ⟨i, _, hi⟩
    exact ⟨i, hi⟩
  · rintro ⟨i, hj⟩
    rcases exists_parentAt hj with ⟨parent, hparent⟩
    refine List.mem_flatMap.2 ⟨i, List.mem_range.2 ?_, hj⟩
    apply Nat.lt_of_not_le
    intro hle
    rw [parentAt_eq_none_iff.2 hle] at hparent
    cases hparent

theorem Linked.nodup_targets (h : t.Linked) : t.targets.Nodup := by
  refine List.nodup_flatMap.2 ⟨fun i _ => h.nodup i, ?_⟩
  refine List.nodup_range.imp ?_
  intro i i' hne j hi hi'
  exact hne (h.unique hi hi')

theorem exists_element_of_parentAt {id : ElementId} {parent : Option ElementId}
    (h : t.parentAt id = some parent) : ∃ e, t.elements[id]? = some e ∧ e.parent = parent :=
  Option.map_eq_some_iff.1 h

theorem mem_followersAt {id : ElementId} {e : Element} {b : Branch}
    (he : t.elements[id]? = some e) (hb : b ∈ e.directives.branches) (hne : b.block ≠ id) :
    b.block ∈ t.followersAt id := by
  rw [followersAt_of_getElem? he, Element.followers, List.mem_filter]
  exact ⟨List.mem_map_of_mem hb, by simpa using hne⟩

end Template

namespace Assembly

variable {a : Assembly}

/-- An assembly with the invariant holds a tree. -/
theorem Treelike.isTree (ha : a.Treelike) : a.template.IsTree where
  root := by
    intro root hroot
    rcases ha.root with ⟨hnone, _⟩ | ⟨hsome, hzero⟩
    · rw [hnone] at hroot
      cases hroot
    · rw [hsome] at hroot
      cases hroot
      refine ⟨rfl, Template.exists_element_of_parentAt hzero, ?_⟩
      -- Every link leads to a positive number.
      intro hmem
      rcases Template.mem_targets.1 hmem with ⟨i, hi⟩
      exact Nat.lt_irrefl 0 (ha.linked.pos hi)
  parent_lt := by
    intro id e he parent hparent
    have hheader : a.outline.headers[id]? = some e.header := by
      simp [outline, Template.getElem?_headers, he]
    exact ha.ordered.parent_lt hheader hparent
  inner_lt := by
    intro id e he j hj
    rw [← Template.innerAt_of_getElem? he] at hj
    exact ha.linked.lt_size (List.mem_append_left _ hj)
  branch_lt := by
    intro id e he b hb
    -- An entry for the element itself is no link.
    by_cases hself : b.block = id
    · rw [hself]
      exact (Array.getElem?_eq_some_iff.1 he).1
    · have hfollower := Template.mem_followersAt he hb hself
      exact ha.linked.lt_size (List.mem_append_right _ hfollower)
  targets_nodup := ha.linked.nodup_targets
  inner_parent := by
    intro id e he j hj
    rw [← Template.innerAt_of_getElem? he] at hj
    exact Template.exists_element_of_parentAt (ha.linked.inner_parent hj)
  branch_parent := by
    intro id e he b hb hne
    have hfollower := Template.mem_followersAt he hb hne
    have hparent := ha.linked.follower_parent hfollower
    rw [Template.parentAt_of_getElem? he] at hparent
    exact Template.exists_element_of_parentAt hparent

end Assembly

/-- Every parsed template is a tree without sharing. -/
theorem parse_isTree {options : Options} {source : String} {parsed : Parsed}
    (h : parse options source = .ok parsed) : parsed.template.IsTree := by
  rcases parse_eq_ok h with ⟨a, hrun, htemplate, _⟩
  rw [htemplate]
  exact (Assembly.treelike_empty.run hrun).isTree

/-- A list with a chain of two branches and a scoped slot. -/
theorem parse_isTree_branches_slot :
    ∃ parsed,
      parse {} "<ul><li v-if='a'>x</li> <li v-else>y</li><b slot-scope='s'></b></ul>" =
        .ok parsed ∧
      parsed.template.targets = [1, 3, 2] ∧ parsed.template.IsTree := by
  have htargets : ((parse {}
      "<ul><li v-if='a'>x</li> <li v-else>y</li><b slot-scope='s'></b></ul>").map
        (·.template.targets)).toOption = some [1, 3, 2] := by
    decide +kernel
  cases h : parse {} "<ul><li v-if='a'>x</li> <li v-else>y</li><b slot-scope='s'></b></ul>" with
  | error error =>
      rw [h] at htargets
      cases htargets
  | ok parsed =>
      rw [h] at htargets
      exact ⟨parsed, rfl, Option.some.inj htargets, parse_isTree h⟩

end TemplateMarkup
