import TemplateMarkup.Template.Element

/-!
# The skeleton of a new element

Reading a start tag moves attributes into directives. What holds the tree together is not touched
by that: the tag, the parent, the span, the children and the scoped slots. This file defines the
`Element.skeleton` of an element, and `Element.Trims e e'` for an element that has lost nothing but
attributes of structural names (`Element.Sheds e e'`), or `Element.Claims e e'` if not even its
directives have changed, and shows that

* no reader of directives does more than that, but for the first branch of a chain,
* an element without attributes has nothing to claim, so that every directive is set to none,
* a new element has no children, no scoped slots and no branch but itself
  (`Element.ofStartTag_skeleton`),
* it has lost attributes of structural names and no others (`Element.ofStartTag_sheds`),
* a new element starts a chain if it has a condition, and is no branch then
  (`Element.ofStartTag_chain`),
* a new element and the warnings about it have their spans from the start tag
  (`Element.ofStartTag_spans`).
-/

namespace TemplateMarkup

/-! ## Folds that may fail -/

section Fold

variable {α β ε : Type} {f : β → α → Except ε β} {x : α} {xs ys : List α} {first last : β}

theorem foldlM_cons_eq_ok :
    (x :: xs).foldlM f first = .ok last ↔
      ∃ next, f first x = .ok next ∧ xs.foldlM f next = .ok last := by
  rw [List.foldlM_cons]
  cases f first x with
  | error error => simp [bind, Except.bind]
  | ok next => simp [bind, Except.bind]

theorem foldlM_append_eq_ok :
    (xs ++ ys).foldlM f first = .ok last ↔
      ∃ next, xs.foldlM f first = .ok next ∧ ys.foldlM f next = .ok last := by
  rw [List.foldlM_append]
  cases xs.foldlM f first with
  | error error => simp [bind, Except.bind]
  | ok next => simp [bind, Except.bind]

/-- What every step keeps, the whole fold keeps. -/
theorem foldlM_invariant_of_mem {P : β → Prop}
    (hstep : ∀ {x current next}, x ∈ xs → f current x = .ok next → P current → P next)
    (h : xs.foldlM f first = .ok last) (hfirst : P first) : P last := by
  induction xs generalizing first with
  | nil =>
      cases h
      exact hfirst
  | cons x xs ih =>
      rcases foldlM_cons_eq_ok.1 h with ⟨next, hnext, hrest⟩
      exact ih (fun hmem => hstep (List.mem_cons_of_mem x hmem)) hrest
        (hstep List.mem_cons_self hnext hfirst)

theorem foldlM_invariant {P : β → Prop}
    (hstep : ∀ {x current next}, f current x = .ok next → P current → P next)
    (h : xs.foldlM f first = .ok last) (hfirst : P first) : P last :=
  foldlM_invariant_of_mem (fun _ => hstep) h hfirst

end Fold

/-- What directives say about the place of an element in a conditional chain. -/
structure Directives.Marks where
  condition : Option String
  isElse : Bool
  elseCondition : Option String
  deriving DecidableEq, Repr

def Directives.marks (d : Directives) : Marks :=
  { condition := d.condition, isElse := d.isElse, elseCondition := d.elseCondition }

namespace Element

/-- What places an element in its template. -/
structure Skeleton where
  tag : String
  parent : Option ElementId
  span : Span
  children : Array Node
  scopedSlots : List (String × ElementId)
  branches : List Branch
  deriving DecidableEq, Repr

def skeleton (e : Element) : Skeleton :=
  { tag := e.tag
    parent := e.parent
    span := e.span
    children := e.children
    scopedSlots := e.directives.scopedSlots
    branches := e.directives.branches }

variable {e e' e'' : Element} {id : ElementId} {name : String} {value : Option String}

/-! ## What can be claimed -/

/-- The names that are read as bindings: as an expression, in short or in full, or as a literal. -/
def bindingNames : List String :=
  ["key", "ref", "name", "slot", "is"]

/-- The names of the attributes that structural directives claim. -/
def structuralNames : List String :=
  ["v-for", "v-if", "v-else", "v-else-if", "v-once", "scope", "slot-scope", "inline-template"] ++
    bindingNames.flatMap fun name => [":" ++ name, "v-bind:" ++ name, name]

theorem mem_structuralNames (h : name ∈ bindingNames) :
    ":" ++ name ∈ structuralNames ∧ "v-bind:" ++ name ∈ structuralNames ∧
      name ∈ structuralNames := by
  have hspelling : ∀ spelling ∈ [":" ++ name, "v-bind:" ++ name, name],
      spelling ∈ structuralNames := fun spelling hmem =>
    List.mem_append_right _ (List.mem_flatMap.2 ⟨name, h, hmem⟩)
  exact ⟨hspelling _ (by simp), hspelling _ (by simp), hspelling _ (by simp)⟩

/-- The attributes of some structural names are claimed, all of them, from the list and from the map
alike. -/
def Sheds (e e' : Element) : Prop :=
  ∃ names ⊆ structuralNames, e'.attributes = e.attributes.filter (·.name ∉ names) ∧
    e'.attributeMap = e.attributeMap.filter (·.1 ∉ names)

theorem Sheds.of_eq (hattributes : e'.attributes = e.attributes)
    (hmap : e'.attributeMap = e.attributeMap) : Sheds e e' := by
  refine ⟨[], List.nil_subset _, ?_, ?_⟩
  · rw [hattributes, List.filter_eq_self.2 (by simp)]
  · rw [hmap, List.filter_eq_self.2 (by simp)]

theorem Sheds.trans (h : Sheds e e') (h' : Sheds e' e'') : Sheds e e'' := by
  rcases h with ⟨names, hnames, hattributes, hmap⟩
  rcases h' with ⟨names', hnames', hattributes', hmap'⟩
  refine ⟨names ++ names', List.append_subset.2 ⟨hnames, hnames'⟩, ?_, ?_⟩
  · rw [hattributes', hattributes, List.filter_filter]
    refine List.filter_congr fun a _ => ?_
    simp [Bool.and_comm]
  · rw [hmap', hmap, List.filter_filter]
    refine List.filter_congr fun entry _ => ?_
    simp [Bool.and_comm]

theorem Sheds.attributes_subset (h : Sheds e e') : e'.attributes ⊆ e.attributes := by
  rcases h with ⟨names, _, hattributes, _⟩
  rw [hattributes]
  exact List.filter_sublist.subset

/-- What is left of an element when some of its attributes are claimed. -/
structure Trims (e e' : Element) : Prop where
  skeleton_eq : e'.skeleton = e.skeleton
  marks_eq : e'.directives.marks = e.directives.marks
  sheds : Sheds e e'

theorem Trims.refl (e : Element) : Trims e e :=
  ⟨rfl, rfl, .of_eq rfl rfl⟩

theorem Trims.trans (h : Trims e e') (h' : Trims e' e'') : Trims e e'' :=
  ⟨h'.skeleton_eq.trans h.skeleton_eq, h'.marks_eq.trans h.marks_eq, h.sheds.trans h'.sheds⟩

theorem Trims.attributes_subset (h : Trims e e') : e'.attributes ⊆ e.attributes :=
  h.sheds.attributes_subset

theorem Trims.span_eq (h : Trims e e') : e'.span = e.span :=
  congrArg Skeleton.span h.skeleton_eq

theorem Trims.branches_eq (h : Trims e e') : e'.directives.branches = e.directives.branches :=
  congrArg Skeleton.branches h.skeleton_eq

theorem Trims.condition_eq (h : Trims e e') : e'.directives.condition = e.directives.condition :=
  congrArg Directives.Marks.condition h.marks_eq

theorem Trims.isBranch_eq (h : Trims e e') : e'.directives.isBranch = e.directives.isBranch := by
  have helse : e'.directives.isElse = e.directives.isElse :=
    congrArg Directives.Marks.isElse h.marks_eq
  have hcondition : e'.directives.elseCondition = e.directives.elseCondition :=
    congrArg Directives.Marks.elseCondition h.marks_eq
  rw [Directives.isBranch, Directives.isBranch, helse, hcondition]

/-! ## Claiming attributes -/

/-- What is left of an element when attributes are claimed and nothing is made of them yet. -/
structure Claims (e e' : Element) : Prop extends Trims e e' where
  directives_eq : e'.directives = e.directives

theorem Claims.refl (e : Element) : Claims e e :=
  ⟨.refl e, rfl⟩

theorem Claims.trans (h : Claims e e') (h' : Claims e' e'') : Claims e e'' :=
  ⟨h.toTrims.trans h'.toTrims, h'.directives_eq.trans h.directives_eq⟩

theorem claims_of_claim (hname : name ∈ structuralNames) (h : e.claim name = (value, e')) :
    Claims e e' := by
  unfold claim at h
  split at h
  · cases h
    exact .refl e
  · cases h
    exact ⟨⟨rfl, rfl, [name], by simpa using hname, by simp, by simp [Assoc.erase]⟩, rfl⟩

theorem claims_of_claimDynamic (hname : name ∈ bindingNames)
    (h : e.claimDynamic name = (value, e')) : Claims e e' := by
  rcases mem_structuralNames hname with ⟨hshort, hfull, _⟩
  unfold claimDynamic at h
  split at h
  · next hclaim => exact (claims_of_claim hshort hclaim).trans (claims_of_claim hfull h)
  · next hclaim =>
      split at h
      · exact (claims_of_claim hshort hclaim).trans (claims_of_claim hfull h)
      · cases h
        exact claims_of_claim hshort hclaim

theorem claims_of_claimBinding (hname : name ∈ bindingNames)
    (h : e.claimBinding name = (value, e')) : Claims e e' := by
  unfold claimBinding at h
  split at h
  · next hclaim =>
      cases h
      exact claims_of_claimDynamic hname hclaim
  · next unbound hclaim =>
      rcases hliteral : unbound.claim name with ⟨literal, claimed⟩
      simp only [hliteral, Prod.mk.injEq] at h
      rw [← h.2]
      exact (claims_of_claimDynamic hname hclaim).trans
        (claims_of_claim (mem_structuralNames hname).2.2 hliteral)

theorem claims_of_claimScope (h : e.claimScope = (value, e')) : Claims e e' := by
  have hscope : "scope" ∈ structuralNames := by decide
  have hslotScope : "slot-scope" ∈ structuralNames := by decide
  unfold claimScope at h
  split at h
  · split at h
    · next hclaim => exact (claims_of_claim hscope hclaim).trans (claims_of_claim hslotScope h)
    · next hclaim =>
        split at h
        · exact (claims_of_claim hscope hclaim).trans (claims_of_claim hslotScope h)
        · cases h
          exact claims_of_claim hscope hclaim
  · exact claims_of_claim hslotScope h

/-! ## Elements without attributes -/

section Bare

variable (h : e.attributeMap = [])

include h

theorem claim_of_nil (name : String) : e.claim name = (none, e) := by
  simp [claim, h]

theorem claimBinding_of_nil (name : String) : e.claimBinding name = (none, e) := by
  simp [claimBinding, claimDynamic, claim_of_nil h]

theorem claimScope_of_nil : e.claimScope = (none, e) := by
  simp [claimScope, claim_of_nil h]

theorem readLoop_of_nil : e.readLoop = (e, []) := by
  simp [readLoop, claim_of_nil h, nonEmpty]

theorem readCondition_of_nil (id : ElementId) :
    e.readCondition id = e.update ({ · with isElse := false, elseCondition := none }) := by
  simp [readCondition, claim_of_nil h, nonEmpty]

theorem readOnce_of_nil : e.readOnce = e.update ({ · with isOnce := false }) := by
  simp [readOnce, claim_of_nil h]

theorem readKey_of_nil : e.readKey = (e, []) := by
  simp [readKey, claimBinding_of_nil h, nonEmpty]

theorem readRef_of_nil (t : Template) : e.readRef t = e := by
  simp [readRef, claimBinding_of_nil h, nonEmpty]

/-- A `slot` is read for its name, any other element for its scope and its target. -/
theorem readSlot_of_nil :
    e.readSlot = e.update ({ · with slotName := none }) ∨
      e.readSlot = e.update ({ · with slotScope := none }) := by
  have hupdate : (e.update ({ · with slotScope := none })).attributeMap = [] := h
  unfold readSlot
  split
  · exact .inl (by simp [claimBinding_of_nil h])
  · exact .inr (by simp [claimScope_of_nil h, readTarget, claimBinding_of_nil hupdate, nonEmpty])

theorem readComponent_of_nil :
    e.readComponent = e.update ({ · with component := none, isInlineTemplate := false }) := by
  simp [readComponent, claimBinding_of_nil h, claim_of_nil h]

end Bare

/-! ## Structural directives -/

/-- Directives that keep the scoped slots, the branches and the marks change nothing else. -/
theorem trims_update {f : Directives → Directives}
    (hslots : (f e.directives).scopedSlots = e.directives.scopedSlots)
    (hbranches : (f e.directives).branches = e.directives.branches)
    (hmarks : (f e.directives).marks = e.directives.marks) :
    Trims e (e.update f) where
  skeleton_eq := by simp [update, skeleton, hslots, hbranches]
  marks_eq := hmarks
  sheds := .of_eq rfl rfl

theorem trims_readLoop (e : Element) : Trims e (e.readLoop).1 := by
  rcases hclaim : e.claim "v-for" with ⟨value, claimed⟩
  have hclaimed := (claims_of_claim (by decide) hclaim).toTrims
  simp only [readLoop, hclaim]
  split
  · exact hclaimed
  · split
    · dsimp only
      exact hclaimed.trans (trims_update rfl rfl rfl)
    · exact hclaimed

/-- A condition starts a chain; anything else leaves the branches alone. -/
theorem skeleton_readCondition (id : ElementId) (e : Element) :
    ∃ branches : List Branch, (∀ b ∈ branches, b.block = id) ∧
      (e.readCondition id).skeleton =
        { e.skeleton with branches := e.skeleton.branches ++ branches } ∧
      Sheds e (e.readCondition id) := by
  rcases hclaim : e.claim "v-if" with ⟨value, claimed⟩
  have hclaimed := (claims_of_claim (by decide) hclaim).toTrims
  simp only [readCondition, hclaim]
  split
  · -- `v-if` with a condition: the element is the first branch of its own chain.
    next condition _ =>
      refine ⟨[⟨some condition, id⟩], by simp, ?_, hclaimed.sheds⟩
      rw [← hclaimed.skeleton_eq]
      rfl
  · -- Otherwise three claims, and an update of fields that are not in the skeleton.
    rcases helse : claimed.claim "v-else" with ⟨isElse, claimed'⟩
    rcases helseIf : claimed'.claim "v-else-if" with ⟨elseCondition, claimed''⟩
    have htrims := (hclaimed.trans (claims_of_claim (by decide) helse).toTrims).trans
      (claims_of_claim (by decide) helseIf).toTrims
    refine ⟨[], by simp, ?_, htrims.sheds⟩
    rw [List.append_nil]
    exact htrims.skeleton_eq

/-- An element has a condition and starts a chain, or it has none and may be a branch. -/
theorem chain_readCondition (id : ElementId) (hcondition : e.directives.condition = none)
    (hbranch : e.directives.isBranch = false) (hbranches : e.directives.branches = []) :
    ((e.readCondition id).directives.condition = none ∧
      (e.readCondition id).directives.branches = []) ∨
    ∃ condition, (e.readCondition id).directives.condition = some condition ∧
      (e.readCondition id).directives.isBranch = false ∧
      (e.readCondition id).directives.branches = [⟨some condition, id⟩] := by
  rcases hclaim : e.claim "v-if" with ⟨value, claimed⟩
  have hclaimed := (claims_of_claim (by decide) hclaim).toTrims
  simp only [readCondition, hclaim]
  split
  · next condition _ =>
      refine .inr ⟨condition, rfl, hclaimed.isBranch_eq.trans hbranch, ?_⟩
      simp [update, hclaimed.branches_eq, hbranches]
  · rcases helse : claimed.claim "v-else" with ⟨isElse, claimed'⟩
    rcases helseIf : claimed'.claim "v-else-if" with ⟨elseCondition, claimed''⟩
    have htrims := (hclaimed.trans (claims_of_claim (by decide) helse).toTrims).trans
      (claims_of_claim (by decide) helseIf).toTrims
    exact .inl ⟨htrims.condition_eq.trans hcondition, htrims.branches_eq.trans hbranches⟩

theorem trims_readOnce (e : Element) : Trims e e.readOnce := by
  rcases hclaim : e.claim "v-once" with ⟨value, claimed⟩
  simp only [readOnce, hclaim]
  exact (claims_of_claim (by decide) hclaim).toTrims.trans (trims_update rfl rfl rfl)

theorem trims_readKey (e : Element) : Trims e (e.readKey).1 := by
  rcases hclaim : e.claimBinding "key" with ⟨value, claimed⟩
  have hclaimed := (claims_of_claimBinding (by decide) hclaim).toTrims
  simp only [readKey, hclaim]
  split
  · exact hclaimed
  · dsimp only
    exact hclaimed.trans (trims_update rfl rfl rfl)

theorem trims_readPlain (e : Element) : Trims e e.readPlain :=
  trims_update rfl rfl rfl

theorem trims_readRef (t : Template) (e : Element) : Trims e (e.readRef t) := by
  rcases hclaim : e.claimBinding "ref" with ⟨value, claimed⟩
  have hclaimed := (claims_of_claimBinding (by decide) hclaim).toTrims
  simp only [readRef, hclaim]
  split
  · exact hclaimed
  · exact hclaimed.trans (trims_update rfl rfl rfl)

theorem trims_addAttr (e : Element) (name value : String) : Trims e (e.addAttr name value) :=
  trims_update rfl rfl rfl

theorem trims_addProp (e : Element) (name value : String) : Trims e (e.addProp name value) :=
  trims_update rfl rfl rfl

theorem trims_addHandler (e : Element) (h : Handler) : Trims e (e.addHandler h) :=
  trims_update rfl rfl rfl

theorem trims_addCustom (e : Element) (d : CustomDirective) : Trims e (e.addCustom d) :=
  trims_update rfl rfl rfl

theorem trims_readTarget (e : Element) : Trims e e.readTarget := by
  rcases hclaim : e.claimBinding "slot" with ⟨value, claimed⟩
  have hclaimed := (claims_of_claimBinding (by decide) hclaim).toTrims
  simp only [readTarget, hclaim]
  split
  · exact hclaimed
  · refine Trims.trans ?_ (trims_update rfl rfl rfl)
    -- Outside a scoped slot, the target is an attribute too.
    split
    · exact hclaimed.trans (trims_addAttr _ _ _)
    · exact hclaimed

theorem trims_readSlot (e : Element) : Trims e e.readSlot := by
  unfold readSlot
  split
  · rcases hclaim : e.claimBinding "name" with ⟨slotName, claimed⟩
    exact (claims_of_claimBinding (by decide) hclaim).toTrims.trans (trims_update rfl rfl rfl)
  · rcases hclaim : e.claimScope with ⟨scope, claimed⟩
    exact ((claims_of_claimScope hclaim).toTrims.trans (trims_update rfl rfl rfl)).trans
      (trims_readTarget _)

theorem trims_readComponent (e : Element) : Trims e e.readComponent := by
  rcases hclaim : e.claimBinding "is" with ⟨component, claimed⟩
  rcases hinline : claimed.claim "inline-template" with ⟨inline, claimed'⟩
  simp only [readComponent, hclaim, hinline]
  exact ((claims_of_claimBinding (by decide) hclaim).toTrims.trans
    (claims_of_claim (by decide) hinline).toTrims).trans (trims_update rfl rfl rfl)

/-! ## The remaining attributes -/

theorem trims_addLiteral (e : Element) (a : Attribute) : Trims e (e.addLiteral a) := by
  have hattr := trims_addAttr e a.name (Text.quote a.value)
  simp only [addLiteral]
  split
  · exact hattr.trans (trims_addProp _ _ _)
  · exact hattr

theorem trims_addSync {value : String} (h : e.addSync name value = .ok e') : Trims e e' := by
  unfold addSync at h
  split at h
  · cases h
  · cases h
    exact trims_addHandler _ _

theorem trims_addBound {value : String} {modifiers : List String}
    (h : e.addBound name modifiers value = .ok e') : Trims e e' := by
  simp only [addBound] at h
  split at h
  · -- With `.sync`, a handler is added before the binding itself.
    cases hsync : e.addSync (boundName name modifiers) (FilterChain.compile value) with
    | error error => simp [hsync, Except.map] at h
    | ok synced =>
        simp only [hsync, Except.map, Except.ok.injEq] at h
        rw [← h]
        refine (trims_addSync hsync).trans ?_
        split
        · exact trims_addProp _ _ _
        · exact trims_addAttr _ _ _
  · simp only [Except.ok.injEq] at h
    rw [← h]
    split
    · exact trims_addProp _ _ _
    · exact trims_addAttr _ _ _

theorem trims_addAttribute {a : Attribute} (h : e.addAttribute a = .ok e') : Trims e e' := by
  unfold addAttribute at h
  split at h
  · cases h
    exact trims_addLiteral e a
  · exact Trims.trans (trims_update rfl rfl rfl) (trims_addBound h)
  · cases h
    exact Trims.trans (trims_update rfl rfl rfl) (trims_addHandler _ _)
  · cases h
    exact Trims.trans (trims_update rfl rfl rfl) (trims_addCustom _ _)

theorem trims_readAttributes (h : e.readAttributes = .ok e') : Trims e e' := by
  have hkeep : ∀ {a : Attribute} {current next : Element}, current.addAttribute a = .ok next →
      Trims e current → Trims e next := by
    intro a current next hadd hcurrent
    exact hcurrent.trans (trims_addAttribute hadd)
  exact foldlM_invariant (P := Trims e) hkeep h (.refl e)

/-! ## The whole start tag -/

/-- What a start tag goes through. -/
theorem ofStartTag_eq_ok {options : Options} {t : Template} {parent : Option ElementId}
    {tag : StartTag} {warnings : List Warning}
    (h : ofStartTag options t id parent tag = .ok (e, warnings)) :
    ∃ looped keyed ready loopWarnings keyWarnings,
      (unread tag parent).readLoop = (looped, loopWarnings) ∧
      ((looped.readCondition id).readOnce).readKey = (keyed, keyWarnings) ∧
      ready = ((keyed.readPlain.readRef t).readSlot).readComponent ∧
      ready.readAttributes = .ok e ∧
      warnings = loopWarnings ++ keyWarnings ++
        ready.attributes.flatMap (attributeWarnings options ready) ++ modelWarnings t ready := by
  rcases hloop : (unread tag parent).readLoop with ⟨looped, loopWarnings⟩
  rcases hkey : ((looped.readCondition id).readOnce).readKey with ⟨keyed, keyWarnings⟩
  unfold ofStartTag at h
  rw [hloop] at h
  dsimp only at h
  rw [hkey] at h
  dsimp only at h
  cases hread : (((keyed.readPlain.readRef t).readSlot).readComponent).readAttributes with
  | error error => simp [hread] at h
  | ok read =>
      simp only [hread, Except.ok.injEq, Prod.mk.injEq] at h
      rcases h with ⟨rfl, rfl⟩
      exact ⟨looped, keyed, _, loopWarnings, keyWarnings, rfl, hkey, rfl, hread, rfl⟩

/-- The last readers of a start tag only claim attributes. -/
theorem trims_ready (t : Template) (e : Element) :
    Trims e ((e.readPlain.readRef t).readSlot).readComponent :=
  (((trims_readPlain e).trans (trims_readRef t _)).trans (trims_readSlot _)).trans
    (trims_readComponent _)

/-- But for its condition, a start tag is read by claiming attributes. -/
theorem ofStartTag_trims {options : Options} {t : Template} {parent : Option ElementId}
    {tag : StartTag} {warnings : List Warning}
    (h : ofStartTag options t id parent tag = .ok (e, warnings)) :
    ∃ looped, Trims (unread tag parent) looped ∧ Trims (looped.readCondition id) e := by
  rcases ofStartTag_eq_ok h with
    ⟨looped, keyed, ready, loopWarnings, keyWarnings, hloop, hkey, rfl, hread, _⟩
  have hlooped := trims_readLoop (unread tag parent)
  have hkeyed := (trims_readOnce (looped.readCondition id)).trans (trims_readKey _)
  rw [hloop] at hlooped
  rw [hkey] at hkeyed
  exact ⟨looped, hlooped, hkeyed.trans ((trims_ready t keyed).trans (trims_readAttributes hread))⟩

/-- A new element has lost attributes of structural names, and no others. -/
theorem ofStartTag_sheds {options : Options} {t : Template} {parent : Option ElementId}
    {tag : StartTag} {warnings : List Warning}
    (h : ofStartTag options t id parent tag = .ok (e, warnings)) :
    Sheds (unread tag parent) e := by
  rcases ofStartTag_trims h with ⟨looped, hlooped, hread⟩
  rcases skeleton_readCondition id looped with ⟨_, _, _, hcondition⟩
  exact (hlooped.sheds.trans hcondition).trans hread.sheds

/-- A new element has its place from its tag and parent, leads nowhere, and is at most the first
branch of a chain of its own. -/
theorem ofStartTag_skeleton {options : Options} {t : Template} {parent : Option ElementId}
    {tag : StartTag} {warnings : List Warning}
    (h : ofStartTag options t id parent tag = .ok (e, warnings)) :
    ∃ branches : List Branch, (∀ b ∈ branches, b.block = id) ∧
      e.skeleton =
        { tag := tag.name, parent, span := tag.span, children := #[], scopedSlots := [],
          branches } := by
  rcases ofStartTag_trims h with ⟨looped, hlooped, hread⟩
  rcases skeleton_readCondition id looped with ⟨branches, hblocks, hcondition, _⟩
  refine ⟨branches, hblocks, ?_⟩
  calc
    e.skeleton = (looped.readCondition id).skeleton := hread.skeleton_eq
    _ = _ := by
      rw [hcondition, hlooped.skeleton_eq]
      rfl

/-- A new element with a condition starts a chain and is no branch; any other has no chain. -/
theorem ofStartTag_chain {options : Options} {t : Template} {parent : Option ElementId}
    {tag : StartTag} {warnings : List Warning}
    (h : ofStartTag options t id parent tag = .ok (e, warnings)) :
    (e.directives.condition = none ∧ e.directives.branches = []) ∨
      ∃ condition, e.directives.condition = some condition ∧ e.directives.isBranch = false ∧
        e.directives.branches = [⟨some condition, id⟩] := by
  rcases ofStartTag_trims h with ⟨looped, hlooped, hread⟩
  -- The readers behind the condition leave the marks and the branches alone.
  rw [hread.condition_eq, hread.isBranch_eq, hread.branches_eq]
  exact chain_readCondition id hlooped.condition_eq hlooped.isBranch_eq hlooped.branches_eq

/-! ## Spans -/

theorem span_of_mem_readLoop {w : Warning} (h : w ∈ (e.readLoop).2) : w.span = e.span := by
  rcases hclaim : e.claim "v-for" with ⟨value, claimed⟩
  simp only [readLoop, hclaim] at h
  split at h
  · cases h
  · split at h
    · cases h
    · rw [List.mem_singleton.1 h]
      exact (claims_of_claim (by decide) hclaim).toTrims.span_eq

theorem span_of_mem_readKey {w : Warning} (h : w ∈ (e.readKey).2) : w.span = e.span := by
  rcases hclaim : e.claimBinding "key" with ⟨value, claimed⟩
  simp only [readKey, hclaim] at h
  split at h
  · cases h
  · split at h
    · rw [List.mem_singleton.1 h]
      exact (claims_of_claimBinding (by decide) hclaim).toTrims.span_eq
    · cases h

/-- A warning about an attribute has the span of the attribute or of the element. -/
theorem span_of_mem_attributeWarnings {options : Options} {a : Attribute} {w : Warning}
    (h : w ∈ e.attributeWarnings options a) : w.span = a.span ∨ w.span = e.span := by
  unfold attributeWarnings at h
  split at h
  · split at h
    · rw [List.mem_singleton.1 h]
      exact .inl rfl
    · cases h
  · unfold handlerWarnings at h
    split at h
    · rw [List.mem_singleton.1 h]
      exact .inr rfl
    · cases h
  · cases h

theorem span_of_mem_modelWarnings {t : Template} {w : Warning} (h : w ∈ e.modelWarnings t) :
    ∃ a ∈ e.attributes, w.span = a.span := by
  unfold modelWarnings at h
  split at h
  · cases h
  · next models hmodels =>
      rcases List.mem_filterMap.1 h with ⟨a, ha, hwarning⟩
      split at hwarning
      · cases hwarning
        exact ⟨a, (List.mem_filter.1 ha).1, rfl⟩
      · cases hwarning

/-- A new element and the warnings about it have their spans from the start tag. -/
theorem ofStartTag_spans {options : Options} {t : Template} {parent : Option ElementId}
    {tag : StartTag} {warnings : List Warning}
    (h : ofStartTag options t id parent tag = .ok (e, warnings)) :
    e.attributes ⊆ tag.attributes ∧
      ∀ w ∈ warnings, w.span = tag.span ∨ ∃ a ∈ tag.attributes, w.span = a.span := by
  rcases ofStartTag_eq_ok h with
    ⟨looped, keyed, ready, loopWarnings, keyWarnings, hloop, hkey, rfl, hread, rfl⟩
  rcases skeleton_readCondition id looped with ⟨branches, _, hcondition, hsheds⟩
  have hlooped := trims_readLoop (unread tag parent)
  have honce := trims_readOnce (looped.readCondition id)
  have hkeyed := trims_readKey (looped.readCondition id).readOnce
  rw [hloop] at hlooped
  rw [hkey] at hkeyed
  have hready := (honce.trans hkeyed).trans (trims_ready t keyed)
  have hspan : (looped.readCondition id).span = tag.span := by
    calc
      (looped.readCondition id).span = looped.span := congrArg Skeleton.span hcondition
      _ = tag.span := hlooped.span_eq
  have hattributes := List.Subset.trans hready.attributes_subset
    (List.Subset.trans hsheds.attributes_subset hlooped.attributes_subset)
  refine ⟨List.Subset.trans (trims_readAttributes hread).attributes_subset hattributes, ?_⟩
  intro w hw
  simp only [List.mem_append, List.mem_flatMap] at hw
  rcases hw with ((hw | hw) | ⟨a, ha, hw⟩) | hw
  · refine .inl (span_of_mem_readLoop (e := unread tag parent) ?_)
    rw [hloop]
    exact hw
  · refine .inl (Eq.trans (span_of_mem_readKey (e := (looped.readCondition id).readOnce) ?_)
      (honce.span_eq.trans hspan))
    rw [hkey]
    exact hw
  · rcases span_of_mem_attributeWarnings hw with hw | hw
    · exact .inr ⟨a, hattributes ha, hw⟩
    · exact .inl (hw.trans (hready.span_eq.trans hspan))
  · rcases span_of_mem_modelWarnings hw with ⟨a, ha, hw⟩
    exact .inr ⟨a, hattributes ha, hw⟩

end Element
end TemplateMarkup
