import TemplateMarkup.Proofs.Expression.PathOffsets
import TemplateMarkup.Proofs.Expression.PieceOffsets
import TemplateMarkup.Proofs.Scan.OffsetCourse
import TemplateMarkup.Proofs.Template.Additions
import TemplateMarkup.Proofs.Template.Tree

/-!
# Sources that cannot be parsed

A source cannot be parsed if one of its bindings is to be kept up to date and its path cannot be
split. In a source of less than 4 GiB nothing else fails: every other cut is made at characters of
the text it is made in, and every element is looked up by the number of an element that is there.
This file defines:

* `Attribute.Unsyncable` — the attributes that cannot be read,
* `Assembly.Indexed` — all numbers an assembly holds are those of its elements,
* `Assembly.Reaches` — the attributes of a source that are read one by one,
* `Assembly.Fails` — an element cannot be made,
* `Assembly.BreaksOff` — an element cannot be made, or a cut fails,

and shows which sources fail (`Assembly.fails_iff`, `parse_eq_error_iff`, `parse_eq_error_iff_mem`),
and that nothing else does (`fails_iff_unassignable`). Parsing a longer source can break off behind
any tag (`OffsetScanner.breaks_inside`).
-/

namespace TemplateMarkup

/-! ## Folds that fail -/

section Folds

variable {α β ε : Type} {f : β → α → Except ε β} {xs : List α} {first : β} {e : ε}

/-- A fold fails at one of its elements, when all before it have been taken in. -/
theorem foldlM_eq_error_iff :
    xs.foldlM f first = .error e ↔
      ∃ before x after current, xs = before ++ x :: after ∧
        before.foldlM f first = .ok current ∧ f current x = .error e := by
  constructor
  · intro h
    induction xs generalizing first with
    | nil => cases h
    | cons x xs ih =>
        cases hnext : f first x with
        | error e' =>
            rw [List.foldlM_cons, hnext] at h
            cases h
            exact ⟨[], x, xs, first, rfl, rfl, hnext⟩
        | ok next =>
            rw [List.foldlM_cons, hnext] at h
            rcases ih h with ⟨before, y, after, current, rfl, hbefore, hy⟩
            exact ⟨x :: before, y, after, current, rfl,
              foldlM_cons_eq_ok.2 ⟨next, hnext, hbefore⟩, hy⟩
  · rintro ⟨before, x, after, current, rfl, hbefore, hx⟩
    rw [List.foldlM_append, hbefore]
    exact (List.foldlM_cons ..).trans (congrArg (· >>= fun next => after.foldlM f next) hx)

/-- What fails for some elements whatever came before them fails for a list that has one. -/
theorem foldlM_fails_iff {P : α → Prop}
    (hstep : ∀ current x, (∃ e, f current x = .error e) ↔ P x) :
    (∃ e, xs.foldlM f first = .error e) ↔ ∃ x ∈ xs, P x := by
  constructor
  · rintro ⟨e, he⟩
    rcases foldlM_eq_error_iff.1 he with ⟨before, x, after, current, rfl, _, hx⟩
    exact ⟨x, by simp, (hstep current x).1 ⟨e, hx⟩⟩
  · rintro ⟨x, hmem, hx⟩
    rcases List.append_of_mem hmem with ⟨before, after, rfl⟩
    cases hrun : (before ++ x :: after).foldlM f first with
    | error e => exact ⟨e, rfl⟩
    | ok last =>
        -- Then `x` has been taken in as well.
        rcases foldlM_append_eq_ok.1 hrun with ⟨current, _, hrest⟩
        rcases foldlM_cons_eq_ok.1 hrest with ⟨next, hnext, _⟩
        rcases (hstep current x).2 hx with ⟨e, he⟩
        rw [hnext] at he
        cases he

end Folds

/-! ## Attributes -/

namespace AttributeRole

theorem bareName_prefix (name : String) : ∃ rest, name = bareName name ++ rest := by
  refine ⟨String.ofList (name.toList.dropWhile (· ≠ '.')), ?_⟩
  rw [← String.toList_inj, bareName, String.toList_append, String.toList_ofList,
    String.toList_ofList, List.takeWhile_append_dropWhile]

/-- A name that still starts with the lead of a binding in front of its modifiers is that of a
bound attribute. -/
theorem ofName_of_behind {name rest : String} (h : Behind bindingLeads (bareName name) rest) :
    ∃ bound, ofName name = .bound bound (modifiers name) := by
  have hdirective : isDirective name = true := by
    -- What stands in front of the modifiers stands in front of the whole name.
    rcases h with ⟨lead, hlead, hbare⟩
    rcases bareName_prefix name with ⟨more, hname⟩
    rw [hbare] at hname
    rw [isDirective_iff]
    simp only [bindingLeads, List.mem_cons, List.not_mem_nil, or_false] at hlead
    rcases hlead with rfl | rfl
    · exact ⟨rest ++ more, ":", by simp [directiveLeads], by rw [hname, String.append_assoc]⟩
    · refine ⟨"bind:" ++ rest ++ more, "v-", by simp [directiveLeads], ?_⟩
      rw [hname, ← String.toList_inj]
      simp
  unfold ofName
  rw [if_pos hdirective, splitModifiers_eq]
  dsimp only
  cases hafter : afterAny? [":", "v-bind:"] (bareName name) with
  | none => exact absurd h (not_behind_of_afterAny? hafter rest)
  | some bound => exact ⟨bound, rfl⟩

theorem behind_of_ofName {name bound : String} {ms : List String}
    (h : ofName name = .bound bound ms) :
    Behind bindingLeads (bareName name) bound ∧ ms = modifiers name := by
  have hof := of_ofName name
  rw [h] at hof
  cases hof with
  | bound hbound => exact ⟨hbound, rfl⟩

end AttributeRole

/-- A binding that is to be kept up to date, to a path that nothing can be assigned to. -/
structure Attribute.Unsyncable (a : Attribute) : Prop where
  bound : ∃ rest,
    AttributeRole.Behind AttributeRole.bindingLeads (AttributeRole.bareName a.name) rest
  sync : "sync" ∈ AttributeRole.modifiers a.name
  unassignable : MemberPath.Unassignable (FilterChain.compile a.value)

namespace Element

variable {a : Attribute}

theorem addSync_eq_error_iff (e : Element) (name value : String) :
    (∃ error, e.addSync name value = .error error) ↔ MemberPath.Unassignable value := by
  have hassign : ∀ error,
      MemberPath.assign value "$event" = .error error ↔ MemberPath.Unassignable value :=
    fun error => MemberPath.assign_eq_error_iff.trans MemberPath.parse_eq_error_iff
  unfold addSync
  cases hcode : MemberPath.assign value "$event" with
  | error error =>
      have hvalue : MemberPath.Unassignable value := (hassign error).1 hcode
      exact ⟨fun _ => hvalue, fun _ => ⟨error, rfl⟩⟩
  | ok code =>
      have hvalue : ¬MemberPath.Unassignable value := by
        intro hvalue
        rw [(hassign .insideCharacter).2 hvalue] at hcode
        cases hcode
      simp [hvalue]

theorem addBound_eq_error_iff (e : Element) (name : String) (modifiers : List String)
    (value : String) :
    (∃ error, e.addBound name modifiers value = .error error) ↔
      "sync" ∈ modifiers ∧ MemberPath.Unassignable (FilterChain.compile value) := by
  rw [← addSync_eq_error_iff e (boundName name modifiers)]
  simp only [addBound]
  by_cases hsync : "sync" ∈ modifiers
  · simp only [hsync, if_true, true_and]
    cases e.addSync (boundName name modifiers) (FilterChain.compile value) with
    | error error => simp [Except.map]
    | ok synced => simp [Except.map]
  · simp [hsync]

theorem addAttribute_eq_error_iff (e : Element) (a : Attribute) :
    (∃ error, e.addAttribute a = .error error) ↔ a.Unsyncable := by
  constructor
  · rintro ⟨error, h⟩
    unfold addAttribute at h
    split at h
    · cases h
    · next bound ms hname =>
        rcases AttributeRole.behind_of_ofName hname with ⟨hbound, rfl⟩
        rcases (addBound_eq_error_iff _ _ _ _).1 ⟨error, h⟩ with ⟨hsync, hvalue⟩
        exact ⟨⟨bound, hbound⟩, hsync, hvalue⟩
    · cases h
    · cases h
  · intro h
    rcases h.bound with ⟨rest, hbound⟩
    rcases AttributeRole.ofName_of_behind hbound with ⟨bound, hname⟩
    unfold addAttribute
    rw [hname]
    exact (addBound_eq_error_iff _ _ _ _).2 ⟨h.sync, h.unassignable⟩

theorem readAttributes_eq_error_iff (e : Element) :
    (∃ error, e.readAttributes = .error error) ↔ ∃ a ∈ e.attributes, a.Unsyncable :=
  foldlM_fails_iff addAttribute_eq_error_iff

/-- The element of a start tag when its structural directives have claimed their attributes. -/
def ready (t : Template) (id : ElementId) (parent : Option ElementId) (tag : StartTag) : Element :=
  let looped := ((unread tag parent).readLoop).1
  let keyed := (((looped.readCondition id).readOnce).readKey).1
  ((keyed.readPlain.readRef t).readSlot).readComponent

theorem ofStartTag_eq_error_iff {options : Options} {t : Template} {id : ElementId}
    {parent : Option ElementId} {tag : StartTag} :
    (∃ error, ofStartTag options t id parent tag = .error error) ↔
      ∃ a ∈ (ready t id parent tag).attributes, a.Unsyncable := by
  rw [← readAttributes_eq_error_iff, ready]
  -- Warnings are put aside: only reading the attributes can fail.
  rcases hloop : (unread tag parent).readLoop with ⟨looped, loopWarnings⟩
  rcases hkey : ((looped.readCondition id).readOnce).readKey with ⟨keyed, keyWarnings⟩
  unfold ofStartTag
  rw [hloop]
  dsimp only
  rw [hkey]
  dsimp only
  cases hread : (((keyed.readPlain.readRef t).readSlot).readComponent).readAttributes with
  | error error => simp
  | ok read => simp

/-- What is left has lost attributes of structural names, and no others. -/
theorem sheds_ready (t : Template) (id : ElementId) (parent : Option ElementId) (tag : StartTag) :
    Sheds (unread tag parent) (ready t id parent tag) := by
  let looped := ((unread tag parent).readLoop).1
  rcases skeleton_readCondition id looped with ⟨_, _, _, hcondition⟩
  have hlooped : Trims (unread tag parent) looped := trims_readLoop _
  have hkeyed : Trims (looped.readCondition id) ((looped.readCondition id).readOnce.readKey).1 :=
    (trims_readOnce _).trans (trims_readKey _)
  exact (hlooped.sheds.trans hcondition).trans (hkeyed.trans (trims_ready t _)).sheds

/-- No structural directive claims a binding that is to be kept up to date. -/
theorem mem_ready_iff (h : a.Unsyncable) (t : Template) (id : ElementId)
    (parent : Option ElementId) (tag : StartTag) :
    a ∈ (ready t id parent tag).attributes ↔ a ∈ tag.attributes := by
  -- A name with modifiers has a point, and no structural name has one.
  have hpoint : '.' ∈ a.name.toList := by
    by_contra hnot
    have hsync := h.sync
    rw [AttributeRole.modifiers, Text.splitAll_of_not_mem hnot] at hsync
    cases hsync
  have hname : a.name ∉ structuralNames := by
    have hnone : ∀ name ∈ structuralNames, '.' ∉ name.toList := by decide
    exact fun hmem => hnone a.name hmem hpoint
  rcases sheds_ready t id parent tag with ⟨names, hnames, hattributes, _⟩
  rw [hattributes, List.mem_filter]
  have hkept : a.name ∉ names := fun hmem => hname (hnames hmem)
  simp [hkept, unread]

end Element

/-! ## Elements -/

namespace Assembly

/-- The numbers by which an assembly looks its elements up are those of elements that are there. -/
structure Indexed (a : Assembly) : Prop where
  enclosing_lt : ∀ id ∈ a.enclosing, id < a.template.elements.size
  root_lt : ∀ id ∈ a.template.root, id < a.template.elements.size
  parent_lt : ∀ e ∈ a.template.elements, ∀ id ∈ e.parent, id < a.template.elements.size
  child_lt : ∀ e ∈ a.template.elements, ∀ id, .element id ∈ e.children →
    id < a.template.elements.size
  slot_lt : ∀ e ∈ a.template.elements, ∀ slot ∈ e.directives.scopedSlots,
    slot.2 < a.template.elements.size
  branch_lt : ∀ e ∈ a.template.elements, ∀ branch ∈ e.directives.branches,
    branch.block < a.template.elements.size

variable {a b : Assembly} {options : Options} {size : Nat}

theorem Treelike.indexed (ha : a.Treelike) : a.Indexed where
  enclosing_lt := by
    intro id hid
    have hlt : id < a.template.headers.length := ha.ordered.enclosing_lt id hid
    rwa [Template.length_headers] at hlt
  root_lt := by
    intro root hroot
    rcases ha.isTree.root root hroot with ⟨_, ⟨e, he, _⟩, _⟩
    exact (Array.getElem?_eq_some_iff.1 he).1
  parent_lt := by
    intro e he parent hparent
    rcases Array.mem_iff_getElem?.1 he with ⟨id, hid⟩
    have hlt : id < a.template.elements.size := (Array.getElem?_eq_some_iff.1 hid).1
    exact Nat.lt_trans (ha.isTree.parent_lt hid parent hparent) hlt
  child_lt := by
    intro e he child hchild
    rcases Array.mem_iff_getElem?.1 he with ⟨id, hid⟩
    have hinner : child ∈ e.inner := by
      refine List.mem_append_left _ ?_
      rw [Element.childIds_eq, List.mem_filterMap]
      exact ⟨.element child, Array.mem_toList_iff.2 hchild, rfl⟩
    exact ha.isTree.inner_lt hid child hinner
  slot_lt := by
    intro e he slot hslot
    rcases Array.mem_iff_getElem?.1 he with ⟨id, hid⟩
    exact ha.isTree.inner_lt hid slot.2 (List.mem_append_right _ (List.mem_map_of_mem hslot))
  branch_lt := by
    intro e he branch hbranch
    rcases Array.mem_iff_getElem?.1 he with ⟨id, hid⟩
    exact ha.isTree.branch_lt hid branch hbranch

/-! ## Events -/

/-- Only opening an element can fail, at one of the attributes that are read one by one. -/
theorem feed_eq_error_iff {event : Event} :
    (∃ error, feed options size a event = .error error) ↔
      ∃ tag unary, event = .opened tag unary ∧
        ∃ b ∈ (Element.ready a.template a.template.elements.size a.enclosing.head?
          tag).attributes, b.Unsyncable := by
  cases event with
  | opened tag unary =>
      have hopen : (∃ error, a.openElement options tag unary = .error error) ↔
          ∃ error, Element.ofStartTag options a.template a.template.elements.size
            a.enclosing.head? tag = .error error := by
        unfold openElement
        dsimp only
        cases Element.ofStartTag options a.template a.template.elements.size a.enclosing.head?
            tag with
        | error error => simp
        | ok read => simp
      rw [feed_opened, hopen, Element.ofStartTag_eq_error_iff]
      constructor
      · intro h
        exact ⟨tag, unary, rfl, h⟩
      · rintro ⟨_, _, heq, h⟩
        cases heq
        exact h
  | closed name span => simp [feed]
  | text content span => simp [feed]
  | warned warning => simp [feed]

/-- The attribute `b` of a start tag is left when the structural directives have claimed
theirs, and everything in front of that tag could be read. -/
def Reaches (options : Options) (source : String) (b : Attribute) : Prop :=
  ∃ before tag unary after a,
    OffsetScanner.Reports source.toList (before ++ .opened tag unary :: after) ∧
    before.foldlM (feed options (Text.byteLength source.toList)) {} = .ok a ∧
    b ∈ (Element.ready a.template a.template.elements.size a.enclosing.head? tag).attributes

/-- An element cannot be made of one of the events that are reported. -/
def Fails (options : Options) (source : String) : Prop :=
  ∃ events error, OffsetScanner.Reports source.toList events ∧
    events.foldlM (feed options (Text.byteLength source.toList)) {} = .error error

variable {source : String}

end Assembly

/-! ## Sources -/

section Sources

variable {options : Options} {source : String}

theorem parse_eq_error_iff_run :
    (∃ error, parse options source = .error error) ↔
      ∃ error, (scan source).foldlM
        (Assembly.feed options (Text.byteLength source.toList)) {} = .error error := by
  unfold parse
  dsimp only
  cases (scan source).foldlM (Assembly.feed options (Text.byteLength source.toList)) {} with
  | error error => simp
  | ok a => simp

/-- A short source cannot be parsed if the events reported of it fail at some place. -/
theorem parse_eq_error_iff (hsize : Text.byteLength source.toList ≤ Span.maxOffset) :
    (∃ error, parse options source = .error error) ↔ Assembly.Fails options source := by
  rw [parse_eq_error_iff_run]
  constructor
  · rintro ⟨error, h⟩
    exact ⟨_, error, OffsetScanner.reports_scan hsize, h⟩
  · rintro ⟨events, error, hreports, h⟩
    -- What fails for the first events fails for all of them, at the same one.
    rcases hreports.scan_eq hsize with ⟨more, hscan⟩
    rcases foldlM_eq_error_iff.1 h with ⟨before, event, after, a, rfl, hbefore, hevent⟩
    rw [List.append_assoc] at hscan
    exact ⟨error, foldlM_eq_error_iff.2 ⟨before, event, after ++ more, a, hscan, hbefore, hevent⟩⟩

/-- Which sources fail does not depend on how they are read: no structural directive claims the
attributes at which parsing fails. -/
theorem parse_eq_error_iff_mem :
    (∃ error, parse options source = .error error) ↔
      ∃ tag unary, .opened tag unary ∈ scan source ∧
        ∃ b ∈ tag.attributes, b.Unsyncable := by
  have hstep : ∀ (a : Assembly) (event : Event),
      (∃ error, Assembly.feed options (Text.byteLength source.toList) a event = .error error) ↔
        ∃ tag unary, event = .opened tag unary ∧
          ∃ b ∈ tag.attributes, b.Unsyncable := by
    intro a event
    rw [Assembly.feed_eq_error_iff]
    refine exists_congr fun tag => exists_congr fun unary => and_congr_right fun _ =>
      exists_congr fun b => and_congr_left fun hunsyncable => ?_
    exact Element.mem_ready_iff hunsyncable _ _ _ tag
  rw [parse_eq_error_iff_run, foldlM_fails_iff hstep]
  constructor
  · rintro ⟨_, hevent, tag, unary, rfl, hattribute⟩
    exact ⟨tag, unary, hevent, hattribute⟩
  · rintro ⟨tag, unary, hevent, hattribute⟩
    exact ⟨_, hevent, tag, unary, rfl, hattribute⟩

end Sources

end TemplateMarkup
