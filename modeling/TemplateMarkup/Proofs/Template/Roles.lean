import Mathlib.Data.List.TakeWhile
import TemplateMarkup.Proofs.Text.Cutting
import TemplateMarkup.Template.AttributeRole

/-!
# What the name of an attribute says

The role of an attribute is read off its name: by what the name starts with, and for a directive
again by what is left in front of its modifiers. This file says what the name is made of:

* `AttributeRole.Behind leads name rest` — `name` is one of `leads` with `rest` behind it,
* `AttributeRole.bareName`, `AttributeRole.modifiers` — what stands in front of the first point of
  a name, and what stands between the points behind it,
* `AttributeRole.Of name role` — the role of a name, which `AttributeRole.of_ofName` finds.
-/

namespace TemplateMarkup

theorem afterLead?_eq_some_iff {lead name rest : String} :
    afterLead? lead name = some rest ↔ name = lead ++ rest := by
  rw [afterLead?, Option.map_eq_some_iff]
  constructor
  · rintro ⟨cs, hafter, rfl⟩
    rw [← String.toList_inj, Text.after?_eq_some hafter, String.toList_append, String.toList_ofList]
  · rintro rfl
    exact ⟨rest.toList, by rw [String.toList_append, Text.after?_append], String.ofList_toList⟩

namespace AttributeRole

variable {leads : List String} {name rest : String}

/-! ## Leads -/

/-- What every directive starts with. -/
def directiveLeads : List String :=
  ["v-", "@", ":"]

/-- What a bound attribute starts with. -/
def bindingLeads : List String :=
  [":", "v-bind:"]

/-- What an event handler starts with. -/
def eventLeads : List String :=
  ["@", "v-on:"]

/-- The name starts with one of the leads, and `rest` follows it. -/
def Behind (leads : List String) (name rest : String) : Prop :=
  ∃ lead ∈ leads, name = lead ++ rest

theorem behind_of_afterAny? (h : afterAny? leads name = some rest) : Behind leads name rest := by
  rcases List.exists_of_findSome?_eq_some h with ⟨lead, hlead, hafter⟩
  exact ⟨lead, hlead, afterLead?_eq_some_iff.1 hafter⟩

theorem not_behind_of_afterAny? (h : afterAny? leads name = none) (rest : String) :
    ¬Behind leads name rest := by
  rintro ⟨lead, hlead, hname⟩
  have hnone := List.findSome?_eq_none_iff.1 h lead hlead
  rw [afterLead?_eq_some_iff.2 hname] at hnone
  cases hnone

theorem isDirective_iff : isDirective name = true ↔ ∃ rest, Behind directiveLeads name rest := by
  simp only [isDirective, Bool.or_eq_true, Option.isSome_iff_exists, afterLead?_eq_some_iff,
    Behind, directiveLeads, List.mem_cons, List.not_mem_nil, or_false, exists_eq_or_imp,
    exists_eq_left, exists_or, or_assoc]

/-! ## Modifiers -/

/-- What stands in front of the first point. -/
def bareName (name : String) : String :=
  String.ofList (name.toList.takeWhile (· ≠ '.'))

/-- What stands behind the points, each but the empty one once. -/
def modifiers (name : String) : List String :=
  (((Text.splitAll '.' name.toList).tail.filter (· ≠ [])).map String.ofList).eraseDups

theorem splitModifiers_eq (name : String) :
    splitModifiers name = (bareName name, modifiers name) := by
  have hpoint : ∀ {cs : List Char}, '.' ∉ cs → ∀ c ∈ cs, decide (c ≠ '.') = true :=
    fun h c hc => decide_eq_true fun heq => h (heq ▸ hc)
  unfold splitModifiers
  cases hbreak : Text.breakOn? ['.'] name.toList with
  | none =>
      -- Without a point there is nothing behind one.
      have hnot : '.' ∉ name.toList := by
        intro hmem
        rcases List.eq_append_cons_of_mem hmem with ⟨before, after, hname, hbefore⟩
        have hsome := Text.breakOn?_eq_some_iff.2
          ⟨by simpa using hname, Text.firstAt_singleton.2 hbefore⟩
        rw [hbreak] at hsome
        cases hsome
      rw [bareName, modifiers, List.takeWhile_eq_self_iff.2 (hpoint hnot),
        Text.splitAll_of_not_mem hnot, String.ofList_toList]
      rfl
  | some cut =>
      rcases cut with ⟨bare, behind⟩
      rcases Text.breakOn?_eq_some_iff.1 hbreak with ⟨hname, hfirst⟩
      have hbare := Text.firstAt_singleton.1 hfirst
      rw [List.append_assoc, List.singleton_append] at hname
      rw [bareName, modifiers, hname, Text.splitAll_append hbare,
        List.takeWhile_append_of_pos (hpoint hbare)]
      simp

/-- A lead without a point is not touched when the modifiers are cut off. -/
theorem bareName_append {lead : String} (h : '.' ∉ lead.toList) (rest : String) :
    bareName (lead ++ rest) = lead ++ bareName rest := by
  have hlead : ∀ c ∈ lead.toList, decide (c ≠ '.') = true :=
    fun c hc => decide_eq_true fun heq => h (heq ▸ hc)
  rw [← String.toList_inj]
  simp only [bareName, String.toList_append, String.toList_ofList,
    List.takeWhile_append_of_pos hlead]

/-! ## Roles -/

/-- The role of an attribute. The modifiers are cut off before a directive is told by its lead. -/
inductive Of (name : String) : AttributeRole → Prop
  /-- A name without the lead of a directive. -/
  | literal (hname : ∀ rest, ¬Behind directiveLeads name rest) : Of name .literal
  | bound {rest : String} (hbound : Behind bindingLeads (bareName name) rest) :
      Of name (.bound rest (modifiers name))
  | handler {rest : String} (hevent : Behind eventLeads (bareName name) rest) :
      Of name (.handler rest (modifiers name))
  /-- Any other directive; only the long lead is left for it. -/
  | custom {rest : String} (hname : bareName name = "v-" ++ rest)
      (hbound : ∀ rest, ¬Behind bindingLeads (bareName name) rest)
      (hevent : ∀ rest, ¬Behind eventLeads (bareName name) rest) :
      Of name (.custom (splitArgument rest).1 (splitArgument rest).2 (modifiers name))

/-- What neither binds nor handles is a directive by its long lead. -/
theorem bareName_eq_of_isDirective (h : isDirective name = true)
    (hbound : ∀ rest, ¬Behind bindingLeads (bareName name) rest)
    (hevent : ∀ rest, ¬Behind eventLeads (bareName name) rest) :
    ∃ rest, bareName name = "v-" ++ rest := by
  rcases isDirective_iff.1 h with ⟨rest, lead, hlead, rfl⟩
  simp only [directiveLeads, List.mem_cons, List.not_mem_nil, or_false] at hlead
  rcases hlead with rfl | rfl | rfl
  · exact ⟨_, bareName_append (by decide) rest⟩
  · exact absurd ⟨"@", by simp [eventLeads], bareName_append (by decide) rest⟩ (hevent _)
  · exact absurd ⟨":", by simp [bindingLeads], bareName_append (by decide) rest⟩ (hbound _)

theorem of_ofName (name : String) : Of name (ofName name) := by
  unfold ofName
  split
  · next hdirective =>
      rw [splitModifiers_eq]
      dsimp only
      split
      · next rest hafter => exact .bound (behind_of_afterAny? hafter)
      · next hbound =>
          split
          · next event hafter => exact .handler (behind_of_afterAny? hafter)
          · next hevent =>
              have hnotBound := not_behind_of_afterAny? hbound
              have hnotEvent := not_behind_of_afterAny? hevent
              rcases bareName_eq_of_isDirective hdirective hnotBound hnotEvent with ⟨rest, hname⟩
              have hafter : afterAny? ["v-", "@", ":"] (bareName name) = some rest := by
                rw [afterAny?, List.findSome?_cons, afterLead?_eq_some_iff.2 hname]
              rw [hafter]
              exact .custom hname hnotBound hnotEvent
  · next hliteral =>
      refine .literal fun rest hbehind => ?_
      exact hliteral (isDirective_iff.2 ⟨rest, hbehind⟩)

theorem ofName_eq_literal_iff : ofName name = .literal ↔ isDirective name = false := by
  unfold ofName
  split
  · next hdirective =>
      rw [hdirective]
      dsimp only
      split
      · simp
      · split
        · simp
        · simp
  · next hliteral => simpa using hliteral

theorem isDirective_of_ofName (name : String) (h : ofName name ≠ .literal) :
    isDirective name = true := by
  rw [← Bool.not_eq_false, ← ofName_eq_literal_iff]
  exact h

end AttributeRole
end TemplateMarkup
