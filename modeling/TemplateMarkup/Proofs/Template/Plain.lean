import TemplateMarkup.Proofs.Template.Additions
import TemplateMarkup.Proofs.Template.Attributes

/-!
# Plain elements

Whether an element is plain is settled while it is read: behind its key, when the references, the
slots and the remaining attributes are still to come. Whatever adds one of these later on has to
take it back.

* `Directives.data` — directives but for loops, conditions and what else may stand at a plain
  element,
* `Element.ofStartTag_data` — a new element that is plain has neither attributes nor data,
* `Element.Dataless e` — the element `e` has nothing to be emitted besides its content,
* `parse_plain_dataless` — so it is with every plain element of a parsed template.
-/

namespace TemplateMarkup

/-- Directives without those that are read in front of the key. -/
def Directives.data (d : Directives) : Directives :=
  { d with
    loop := none
    condition := none
    isElse := false
    elseCondition := none
    branches := []
    isOnce := false
    isPlain := false }

namespace Element

variable {e e' : Element} {id : ElementId} {t : Template}

/-! ## In front of the flag -/

theorem data_readLoop (e : Element) : (e.readLoop).1.directives.data = e.directives.data := by
  rcases hclaim : e.claim "v-for" with ⟨value, claimed⟩
  have hclaimed := (claims_of_claim (by decide) hclaim).directives_eq
  simp only [readLoop, hclaim]
  split
  · rw [hclaimed]
  · split
    · rw [← hclaimed]
      rfl
    · rw [hclaimed]

theorem data_readCondition (id : ElementId) (e : Element) :
    (e.readCondition id).directives.data = e.directives.data := by
  rcases hclaim : e.claim "v-if" with ⟨value, claimed⟩
  have hclaimed := claims_of_claim (by decide) hclaim
  simp only [readCondition, hclaim]
  split
  · rw [← hclaimed.directives_eq]
    rfl
  · rcases helse : claimed.claim "v-else" with ⟨isElse, claimed'⟩
    rcases helseIf : claimed'.claim "v-else-if" with ⟨elseCondition, claimed''⟩
    have hall := (hclaimed.trans (claims_of_claim (by decide) helse)).trans
      (claims_of_claim (by decide) helseIf)
    rw [← hall.directives_eq]
    rfl

theorem data_readOnce (e : Element) : e.readOnce.directives.data = e.directives.data := by
  rcases hclaim : e.claim "v-once" with ⟨value, claimed⟩
  simp only [readOnce, hclaim]
  rw [← (claims_of_claim (by decide) hclaim).directives_eq]
  rfl

/-- Setting a part of the data where there is none. -/
theorem data_update {f : Directives → Directives} (hdata : e.directives.data = {})
    (hpart : (f e.directives).data = f e.directives.data) :
    (e.update f).directives.data = f {} := by
  calc
    (f e.directives).data = f e.directives.data := hpart
    _ = f {} := by rw [hdata]

/-- The key is the first of the data to be read. -/
theorem data_readKey (h : e.directives.data = {}) :
    (e.readKey).1.directives.data = { key := (e.readKey).1.directives.key } := by
  rcases hclaim : e.claimBinding "key" with ⟨value, claimed⟩
  have hdata : claimed.directives.data = {} := by
    rw [(claims_of_claimBinding (by decide) hclaim).directives_eq, h]
  simp only [readKey, hclaim]
  split
  · have hnone : claimed.directives.key = none := congrArg Directives.key hdata
    rw [hdata, hnone]
  · exact data_update hdata rfl

/-- When it is asked whether the element is plain, nothing but its key has been read. -/
theorem data_keyed {tag : StartTag} {parent : Option ElementId} {looped keyed : Element}
    {loopWarnings keyWarnings : List Warning}
    (hloop : (unread tag parent).readLoop = (looped, loopWarnings))
    (hkey : ((looped.readCondition id).readOnce).readKey = (keyed, keyWarnings)) :
    keyed.directives.data = { key := keyed.directives.key } ∧ keyed.Mapped := by
  have hlooped := data_readLoop (unread tag parent)
  have hshed := (trims_readLoop (unread tag parent)).sheds
  have hkeyed := (trims_readOnce (looped.readCondition id)).trans (trims_readKey _)
  rw [hloop] at hlooped hshed
  have hdata : ((looped.readCondition id).readOnce).directives.data = {} := by
    rw [data_readOnce, data_readCondition]
    exact hlooped
  have hread := data_readKey hdata
  rcases skeleton_readCondition id looped with ⟨_, _, _, hcondition⟩
  rw [hkey] at hread hkeyed
  exact ⟨hread, ((hshed.trans hcondition).trans hkeyed.sheds).mapped (mapped_unread tag parent)⟩

/-! ## Behind the flag -/

/-- What is read behind the flag finds nothing where there are no attributes. -/
theorem data_ready (t : Template) (hmap : e.attributeMap = []) (hdata : e.directives.data = {}) :
    ((e.readRef t).readSlot).readComponent.directives.data = {} := by
  have hslot : e.readSlot.attributeMap = [] ∧ e.readSlot.directives.data = {} := by
    rcases readSlot_of_nil hmap with hread | hread
    · rw [hread]
      exact ⟨hmap, data_update hdata rfl⟩
    · rw [hread]
      exact ⟨hmap, data_update hdata rfl⟩
  rw [readRef_of_nil hmap, readComponent_of_nil hslot.1]
  exact data_update hslot.2 rfl

theorem isPlain_readRef (t : Template) (e : Element) :
    (e.readRef t).directives.isPlain = e.directives.isPlain := by
  rcases hclaim : e.claimBinding "ref" with ⟨value, claimed⟩
  have hclaimed : claimed.directives.isPlain = e.directives.isPlain :=
    congrArg Directives.isPlain (claims_of_claimBinding (by decide) hclaim).directives_eq
  simp only [readRef, hclaim]
  split
  · exact hclaimed
  · exact hclaimed

/-- A target that is an attribute too takes the flag back. -/
theorem isPlain_of_readTarget (h : e.readTarget.directives.isPlain = true) :
    e.directives.isPlain = true := by
  rcases hclaim : e.claimBinding "slot" with ⟨value, claimed⟩
  have hclaimed := (claims_of_claimBinding (by decide) hclaim).directives_eq
  rw [← hclaimed]
  simp only [readTarget, hclaim] at h
  split at h
  · exact h
  · split at h
    · exact absurd h Bool.false_ne_true
    · exact h

theorem isPlain_of_readSlot (h : e.readSlot.directives.isPlain = true) :
    e.directives.isPlain = true := by
  unfold readSlot at h
  split at h
  · rcases hclaim : e.claimBinding "name" with ⟨slotName, claimed⟩
    rw [hclaim] at h
    rw [← (claims_of_claimBinding (by decide) hclaim).directives_eq]
    exact h
  · rcases hclaim : e.claimScope with ⟨scope, claimed⟩
    rw [hclaim] at h
    rw [← (claims_of_claimScope hclaim).directives_eq]
    exact isPlain_of_readTarget (e := claimed.update ({ · with slotScope := nonEmpty scope })) h

theorem isPlain_readComponent (e : Element) :
    e.readComponent.directives.isPlain = e.directives.isPlain := by
  rcases hclaim : e.claimBinding "is" with ⟨component, claimed⟩
  rcases hinline : claimed.claim "inline-template" with ⟨inline, claimed'⟩
  have hclaimed := (claims_of_claimBinding (by decide) hclaim).trans
    (claims_of_claim (by decide) hinline)
  simp only [readComponent, hclaim, hinline]
  rw [← hclaimed.directives_eq]
  rfl

/-- An element that ends up plain has been found plain. -/
theorem isPlain_of_ready
    (h : ((e.readRef t).readSlot).readComponent.directives.isPlain = true) :
    e.directives.isPlain = true := by
  rw [isPlain_readComponent] at h
  rw [← isPlain_readRef t]
  exact isPlain_of_readSlot h

/-! ## Plain elements -/

theorem ofStartTag_data {options : Options} {parent : Option ElementId} {tag : StartTag}
    {warnings : List Warning} (h : ofStartTag options t id parent tag = .ok (e, warnings))
    (hplain : e.directives.isPlain = true) : e.attributes = [] ∧ e.directives.data = {} := by
  rcases ofStartTag_eq_ok h with
    ⟨looped, keyed, ready, loopWarnings, keyWarnings, hloop, hkey, hready, hread, _⟩
  rcases data_keyed hloop hkey with ⟨hdata, hmapped⟩
  rcases readAttributes_extended hread with ⟨additions, hadditions, rfl⟩
  -- The flag has come through the remaining attributes, so there are none of them.
  have hflags : (ready.directives.isPlain && ready.attributes.isEmpty) = true := hplain
  rw [Bool.and_eq_true, List.isEmpty_iff] at hflags
  have hkept : keyed.readPlain.directives.isPlain = true := by
    rw [hready] at hflags
    exact isPlain_of_ready hflags.1
  have hset : (keyed.directives.key.isNone && keyed.attributes.isEmpty) = true := hkept
  rw [Bool.and_eq_true, Option.isNone_iff_eq_none, List.isEmpty_iff] at hset
  have hmap : keyed.readPlain.attributeMap = [] := by
    calc
      keyed.attributeMap = Assoc.ofEntries (keyed.attributes.map fun a => (a.name, a.value)) :=
        hmapped
      _ = [] := by
        rw [hset.2]
        rfl
  have hnothing : keyed.readPlain.directives.data = {} := by
    calc
      keyed.directives.data = { key := keyed.directives.key } := hdata
      _ = {} := by rw [hset.1]
  rw [hflags.2, List.forall₂_nil_left_iff] at hadditions
  rw [hflags.2, hadditions, extended_nil]
  refine ⟨hflags.2, ?_⟩
  rw [hready]
  exact data_ready t hmap hnothing

/-- Assembling leaves a plain element without data, or makes it plain no longer. -/
theorem Grows.data_eq (h : Grows e e') (hplain : e'.directives.isPlain = true) :
    e'.directives.data = e.directives.data ∧ e.directives.isPlain = true := by
  rcases h.directives with ⟨branches, slots, plain, hdirectives, hkept⟩
  rw [hdirectives] at hplain
  rcases hkept hplain with ⟨hslots, hbefore⟩
  refine ⟨?_, hbefore⟩
  rw [hdirectives, hslots]
  rfl

/-- The element has nothing to be emitted besides its content. -/
structure Dataless (e : Element) : Prop where
  attributes_eq : e.attributes = []
  props_eq : e.directives.props = []
  attrs_eq : e.directives.attrs = []
  custom_eq : e.directives.custom = []
  handlers_eq : e.directives.handlers = []
  scopedSlots_eq : e.directives.scopedSlots = []
  key_eq : e.directives.key = none
  ref_eq : e.directives.ref = none
  slotName_eq : e.directives.slotName = none
  slotTarget_eq : e.directives.slotTarget = none
  slotScope_eq : e.directives.slotScope = none
  component_eq : e.directives.component = none
  hasBindings_eq : e.directives.hasBindings = false
  refInLoop_eq : e.directives.refInLoop = false
  isInlineTemplate_eq : e.directives.isInlineTemplate = false

theorem Dataless.of_data (hattributes : e.attributes = []) (hdata : e.directives.data = {}) :
    e.Dataless where
  attributes_eq := hattributes
  props_eq := congrArg Directives.props hdata
  attrs_eq := congrArg Directives.attrs hdata
  custom_eq := congrArg Directives.custom hdata
  handlers_eq := congrArg Directives.handlers hdata
  scopedSlots_eq := congrArg Directives.scopedSlots hdata
  key_eq := congrArg Directives.key hdata
  ref_eq := congrArg Directives.ref hdata
  slotName_eq := congrArg Directives.slotName hdata
  slotTarget_eq := congrArg Directives.slotTarget hdata
  slotScope_eq := congrArg Directives.slotScope hdata
  component_eq := congrArg Directives.component hdata
  hasBindings_eq := congrArg Directives.hasBindings hdata
  refInLoop_eq := congrArg Directives.refInLoop hdata
  isInlineTemplate_eq := congrArg Directives.isInlineTemplate hdata

end Element

variable {options : Options} {source : String} {parsed : Parsed}

/-- A plain element of a parsed template has nothing to be emitted besides its content. -/
theorem parse_plain_dataless (h : parse options source = .ok parsed) (id : ElementId) (e : Element)
    (he : parsed.template.elements[id]? = some e) (hplain : e.directives.isPlain = true) :
    e.Dataless := by
  rcases parse_read h he with ⟨tag, _, t, parent, first, warnings, hread, hgrows⟩
  rcases hgrows.data_eq hplain with ⟨hdata, hfirst⟩
  rcases Element.ofStartTag_data hread hfirst with ⟨hattributes, hnothing⟩
  exact .of_data (hgrows.attributes_eq.trans hattributes) (hdata.trans hnothing)

/-- A condition is no data, so an element that has only that is plain. -/
theorem parse_plain_dataless_condition :
    ∃ parsed e, parse {} "<p v-if=a><b :key=k></b></p>" = .ok parsed ∧
      parsed.template.elements[0]? = some e ∧ e.directives.condition = some "a" ∧
      e.directives.isPlain = true ∧ e.Dataless := by
  have hread : ((parse {} "<p v-if=a><b :key=k></b></p>").map fun parsed =>
      parsed.template.elements[0]?.map fun e =>
        (e.directives.condition, e.directives.isPlain)).toOption =
      some (some (some "a", true)) := by
    decide +kernel
  cases h : parse {} "<p v-if=a><b :key=k></b></p>" with
  | error error =>
      rw [h] at hread
      cases hread
  | ok parsed =>
      rw [h] at hread
      rcases Option.map_eq_some_iff.1 (Option.some.inj hread) with ⟨e, he, hflags⟩
      rcases Prod.mk.inj hflags with ⟨hcondition, hplain⟩
      exact ⟨parsed, e, rfl, he, hcondition, hplain, parse_plain_dataless h 0 e he hplain⟩

end TemplateMarkup
