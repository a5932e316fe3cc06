import Mathlib.Data.List.Forall2
import TemplateMarkup.Proofs.Template.Roles
import TemplateMarkup.Proofs.Template.Skeleton

/-!
# What the remaining attributes add

Each attribute that no structural directive has claimed becomes an entry of one of four lists of
its element: its attributes, its properties, its handlers or its custom directives. Two of them
bring a second entry along: a bound attribute with the modifier `sync` a handler, and a literal
`muted` of a video a property.

* `Element.Additions` — entries for the four lists,
* `Element.Adds e a x` — the attribute `a` adds `x` to the element `e`,
* `Element.extended` — an element with what its attributes add,
* `Element.readAttributes_extended` — the remaining attributes are added one by one,
* `Element.readAttributes_additions` — what becomes of them in all.
-/

namespace TemplateMarkup
namespace Element

/-- What an attribute adds to the directives of an element. -/
structure Additions where
  attrs : List Binding := []
  props : List Binding := []
  handlers : List Handler := []
  custom : List CustomDirective := []

variable {e e' : Element} {a : Attribute} {x : Additions} {name value : String}
  {modifiers : List String}

/-- The handler that a bound attribute brings along: one with the modifier `sync`, else none. -/
inductive Updates (name : String) (modifiers : List String) (value : String) : List Handler → Prop
  | plain (hsync : "sync" ∉ modifiers) : Updates name modifiers value []
  | sync {code : String} (hsync : "sync" ∈ modifiers)
      (hcode : MemberPath.assign (FilterChain.compile value) "$event" = .ok code) :
      Updates name modifiers value
        [{ name := "update:" ++ Text.camelCase (boundName name modifiers)
           value := code
           modifiers := []
           native := false }]

/-- What an attribute adds to an element, by its role. -/
inductive Adds (e : Element) (a : Attribute) : Additions → Prop
  | literal (hrole : AttributeRole.Of a.name .literal)
      (hmuted : ¬(a.name = "muted" ∧ e.tag = "video" ∧ e.directives.component = none)) :
      Adds e a { attrs := [⟨a.name, Text.quote a.value⟩] }
  | muted (hname : a.name = "muted") (htag : e.tag = "video")
      (hcomponent : e.directives.component = none) :
      Adds e a { attrs := [⟨a.name, Text.quote a.value⟩], props := [⟨"muted", "true"⟩] }
  | attr {name : String} {modifiers : List String} {handlers : List Handler}
      (hrole : AttributeRole.Of a.name (.bound name modifiers))
      (hprop : ¬("prop" ∈ modifiers ∨ e.needsProperty (boundName name modifiers) = true))
      (hupdates : Updates name modifiers a.value handlers) :
      Adds e a { attrs := [⟨boundName name modifiers, FilterChain.compile a.value⟩], handlers }
  | prop {name : String} {modifiers : List String} {handlers : List Handler}
      (hrole : AttributeRole.Of a.name (.bound name modifiers))
      (hprop : "prop" ∈ modifiers ∨ e.needsProperty (boundName name modifiers) = true)
      (hupdates : Updates name modifiers a.value handlers) :
      Adds e a { props := [⟨boundName name modifiers, FilterChain.compile a.value⟩], handlers }
  | handler {event : String} {modifiers : List String}
      (hrole : AttributeRole.Of a.name (.handler event modifiers)) :
      Adds e a { handlers := [handler event a.value modifiers] }
  | custom {name : String} {argument : Option String} {modifiers : List String}
      (hrole : AttributeRole.Of a.name (.custom name argument modifiers)) :
      Adds e a
        { custom := [{ name, rawName := a.name, value := a.value, argument, modifiers }] }

/-- The element with what its attributes add. -/
def extended (e : Element) (attributes : List Attribute) (additions : List Additions) : Element :=
  e.update fun d =>
    { d with
      attrs := d.attrs ++ additions.flatMap (·.attrs)
      props := d.props ++ additions.flatMap (·.props)
      handlers := d.handlers ++ additions.flatMap (·.handlers)
      custom := d.custom ++ additions.flatMap (·.custom)
      hasBindings := d.hasBindings || attributes.any (AttributeRole.isDirective ·.name)
      isPlain := d.isPlain && attributes.isEmpty }

theorem extended_nil (e : Element) : e.extended [] [] = e := by
  simp [extended, update]

theorem extended_append (e : Element) (attributes attributes' : List Attribute)
    (additions additions' : List Additions) :
    (e.extended attributes additions).extended attributes' additions' =
      e.extended (attributes ++ attributes') (additions ++ additions') := by
  have hempty : (attributes ++ attributes').isEmpty =
      (attributes.isEmpty && attributes'.isEmpty) := by
    cases attributes with
    | nil => rfl
    | cons a attributes => rfl
  simp [extended, update, Bool.or_assoc, Bool.and_assoc, hempty]

/-- What an attribute adds does not depend on what others have added. -/
theorem Adds.of_extended {attributes : List Attribute} {additions : List Additions}
    (h : Adds (e.extended attributes additions) a x) : Adds e a x := by
  cases h with
  | literal hrole hmuted => exact .literal hrole hmuted
  | muted hname htag hcomponent => exact .muted hname htag hcomponent
  | attr hrole hprop hupdates => exact .attr hrole hprop hupdates
  | prop hrole hprop hupdates => exact .prop hrole hprop hupdates
  | handler hrole => exact .handler hrole
  | custom hrole => exact .custom hrole

/-! ## One attribute -/

theorem needsProperty_muted :
    e.needsProperty "muted" = true ↔ e.tag = "video" ∧ e.directives.component = none := by
  simp [needsProperty, Tag.bindsProperty, and_comm]

theorem addLiteral_adds (hname : AttributeRole.ofName a.name = .literal) :
    ∃ x, Adds e a x ∧ e.addLiteral a = e.extended [a] [x] := by
  have hrole := AttributeRole.of_ofName a.name
  have hdirective := AttributeRole.ofName_eq_literal_iff.1 hname
  rw [hname] at hrole
  simp only [addLiteral]
  split
  · next hmuted =>
      rcases needsProperty_muted.1 hmuted.2 with ⟨htag, hcomponent⟩
      refine ⟨_, .muted hmuted.1 htag hcomponent, ?_⟩
      simp [extended, update, addAttr, addProp, hdirective]
  · next hmuted =>
      rw [needsProperty_muted] at hmuted
      refine ⟨_, .literal hrole hmuted, ?_⟩
      simp [extended, update, addAttr, hdirective]

theorem addSync_eq_ok (h : e.addSync name value = .ok e') :
    ∃ code, MemberPath.assign value "$event" = .ok code ∧
      e' = e.addHandler
        { name := "update:" ++ Text.camelCase name, value := code, modifiers := [],
          native := false } := by
  unfold addSync at h
  split at h
  · cases h
  · next code hcode =>
      cases h
      refine ⟨code, hcode, ?_⟩
      simp [handler]

theorem foldl_addHandler (handlers : List Handler) (e : Element) :
    handlers.foldl addHandler e = e.update fun d =>
      { d with
        handlers := d.handlers ++ handlers
        isPlain := d.isPlain && handlers.isEmpty } := by
  induction handlers generalizing e with
  | nil => simp [update]
  | cons h handlers ih =>
      rw [List.foldl_cons, ih]
      simp [addHandler, update]

/-- A bound attribute becomes a property or an attribute, behind the handler it brings along. -/
theorem addBound_eq_ok (h : e.addBound name modifiers value = .ok e') :
    ∃ handlers, Updates name modifiers value handlers ∧
      e' = if decide ("prop" ∈ modifiers) || e.needsProperty (boundName name modifiers) then
          (handlers.foldl addHandler e).addProp (boundName name modifiers)
            (FilterChain.compile value)
        else
          (handlers.foldl addHandler e).addAttr (boundName name modifiers)
            (FilterChain.compile value) := by
  simp only [addBound] at h
  split at h
  · next hsync =>
      cases hadd : e.addSync (boundName name modifiers) (FilterChain.compile value) with
      | error error => simp [hadd, Except.map] at h
      | ok synced =>
          simp only [hadd, Except.map, Except.ok.injEq] at h
          rcases addSync_eq_ok hadd with ⟨code, hcode, rfl⟩
          exact ⟨_, .sync hsync hcode, h.symm⟩
  · next hsync =>
      cases h
      exact ⟨[], .plain hsync, rfl⟩

theorem addBound_adds (hname : AttributeRole.ofName a.name = .bound name modifiers)
    (h : (e.update ({ · with hasBindings := true })).addBound name modifiers a.value = .ok e') :
    ∃ x, Adds e a x ∧ e' = e.extended [a] [x] := by
  have hrole := AttributeRole.of_ofName a.name
  have hdirective := AttributeRole.isDirective_of_ofName a.name (by simp [hname])
  rw [hname] at hrole
  rcases addBound_eq_ok h with ⟨handlers, hupdates, rfl⟩
  rw [foldl_addHandler]
  split
  · next hprop =>
      rw [Bool.or_eq_true, decide_eq_true_eq] at hprop
      refine ⟨_, .prop hrole hprop hupdates, ?_⟩
      simp [extended, update, addProp, hdirective]
  · next hprop =>
      rw [Bool.or_eq_true, decide_eq_true_eq] at hprop
      refine ⟨_, .attr hrole hprop hupdates, ?_⟩
      simp [extended, update, addAttr, hdirective]

/-- Every attribute adds entries by its role, and nothing else. -/
theorem addAttribute_adds (h : e.addAttribute a = .ok e') :
    ∃ x, Adds e a x ∧ e' = e.extended [a] [x] := by
  have hrole := AttributeRole.of_ofName a.name
  unfold addAttribute at h
  split at h
  · next hname =>
      cases h
      exact addLiteral_adds hname
  · next name modifiers hname => exact addBound_adds hname h
  · next event modifiers hname =>
      cases h
      have hdirective := AttributeRole.isDirective_of_ofName a.name (by simp [hname])
      rw [hname] at hrole
      refine ⟨_, .handler hrole, ?_⟩
      simp [extended, update, addHandler, hdirective]
  · next name argument modifiers hname =>
      cases h
      have hdirective := AttributeRole.isDirective_of_ofName a.name (by simp [hname])
      rw [hname] at hrole
      refine ⟨_, .custom hrole, ?_⟩
      simp [extended, update, addCustom, hdirective]

/-! ## All attributes -/

theorem foldlM_addAttribute {attributes : List Attribute}
    (h : attributes.foldlM addAttribute e = .ok e') :
    ∃ additions, List.Forall₂ (Adds e) attributes additions ∧
      e' = e.extended attributes additions := by
  induction attributes generalizing e with
  | nil =>
      cases h
      exact ⟨[], .nil, (extended_nil _).symm⟩
  | cons a attributes ih =>
      rcases foldlM_cons_eq_ok.1 h with ⟨next, hadd, hrest⟩
      rcases addAttribute_adds hadd with ⟨x, hx, rfl⟩
      rcases ih hrest with ⟨additions, hadditions, rfl⟩
      refine ⟨x :: additions, .cons hx (hadditions.imp fun _ _ h => h.of_extended), ?_⟩
      exact extended_append e [a] attributes [x] additions

/-- The remaining attributes are added one by one. -/
theorem readAttributes_extended (h : e.readAttributes = .ok e') :
    ∃ additions, List.Forall₂ (Adds e) e.attributes additions ∧
      e' = e.extended e.attributes additions :=
  foldlM_addAttribute h

/-- What becomes of the attributes that are left for themselves: the list and the map stay as they
are, each attribute adds what its role says, in their order, and the element has bindings if one of
them is a directive. -/
theorem readAttributes_additions (h : e.readAttributes = .ok e') :
    e'.attributes = e.attributes ∧ e'.attributeMap = e.attributeMap ∧
    (e'.directives.hasBindings = true ↔ e.directives.hasBindings = true ∨
      ∃ a ∈ e.attributes, ∃ rest,
        AttributeRole.Behind AttributeRole.directiveLeads a.name rest) ∧
    ∃ additions, List.Forall₂ (Adds e) e.attributes additions ∧
      e' = e.extended e.attributes additions := by
  rcases readAttributes_extended h with ⟨additions, hadditions, rfl⟩
  refine ⟨rfl, rfl, ?_, additions, hadditions, rfl⟩
  simp [extended, update, AttributeRole.isDirective_iff]

/-- A video with an attribute for each of the four lists. -/
def mutedVideo : Element :=
  unread
    ⟨"video",
      [⟨"muted", "", ⟨7, 12⟩⟩, ⟨":time.prop.sync", "a.b", ⟨13, 33⟩⟩,
        ⟨"@click.once", "go", ⟨34, 50⟩⟩, ⟨"v-custom:x.y..y", "z", ⟨51, 70⟩⟩],
      false, ⟨0, 71⟩⟩
    none

/-- The handler of the bound time stands in front of the one that is written behind it. -/
theorem readAttributes_additions_mutedVideo :
    ∃ e', mutedVideo.readAttributes = .ok e' ∧
      e'.directives.handlers.map (·.name) = ["update:time", "~click"] ∧
      e'.attributes = mutedVideo.attributes ∧ e'.directives.hasBindings = true ∧
      ∃ additions, List.Forall₂ (Adds mutedVideo) mutedVideo.attributes additions ∧
        e' = mutedVideo.extended mutedVideo.attributes additions := by
  have hread : (mutedVideo.readAttributes.map fun e' =>
      e'.directives.handlers.map (·.name)).toOption = some ["update:time", "~click"] := by
    decide +kernel
  cases h : mutedVideo.readAttributes with
  | error error =>
      rw [h] at hread
      cases hread
  | ok e' =>
      rw [h] at hread
      rcases readAttributes_additions h with ⟨hattributes, _, hbindings, hadditions⟩
      have hdirective : ∃ a ∈ mutedVideo.attributes, ∃ rest,
          AttributeRole.Behind AttributeRole.directiveLeads a.name rest :=
        ⟨⟨"@click.once", "go", ⟨34, 50⟩⟩, by decide, "click.once", "@", by decide, by decide⟩
      exact ⟨e', rfl, Option.some.inj hread, hattributes, hbindings.2 (.inr hdirective),
        hadditions⟩

end Element
end TemplateMarkup
