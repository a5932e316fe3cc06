import TemplateMarkup.Proofs.Template.Chains
import TemplateMarkup.Proofs.Template.Warnings

/-!
# Reaching every element

From the root of a template, links lead to its elements. An element is lost for a reader of the
template when no link leads to it, and all but one of the ways to lose an element are reported:

* `Assembly.Entered` — of the scoped slots that share a name, the last one is kept,
* `Assembly.Attached` — where an element hangs that has been linked without a warning,
* `Template.Reachable`, `Template.Replaced` — what can be reached, and what another slot has taken
  the place of,
* `parse_reachable` — without warnings, all elements can be reached but those in a replaced slot.
-/

namespace TemplateMarkup

open Element (Bonds Role)

/-! ## Scoped slots -/

namespace Assembly

variable {a b : Assembly} {e : Element} {options : Options} {size : Nat}
  {warnings : Array Warning} {net : List Bonds} {i j p : ElementId} {c c' x : Bonds}
  {events : List Event}

/-- The scoped slots of the element `p` are entered under their names, and of those that share a
name the last one. -/
structure Entered (net : List Bonds) (p : ElementId) (c : Bonds) : Prop where
  keys : (c.slots.map (·.1)).Nodup
  latest : ∀ entry ∈ c.slots, ∀ {k : ElementId} {y : Bonds}, net[k]? = some y → y.role.isSlot →
    y.role.parent = some p → y.role.slotKey = entry.1 → k ≤ entry.2
  entry : ∀ {k : ElementId} {y : Bonds}, net[k]? = some y → y.role.isSlot →
    y.role.parent = some p → y.role.slotKey ∈ c.slots.map (·.1)

/-- Only a scoped slot changes the entries of an element. -/
theorem Gains.slots_eq (h : Gains a e i c c') :
    c'.slots = c.slots ∨ (a.enclosing.head? = some i ∧ e.role.isSlot ∧
      c'.slots = Assoc.set e.role.slotKey a.template.net.length c.slots) := by
  cases h with
  | nothing => exact .inl rfl
  | child _ _ _ => exact .inl rfl
  | slot htop hslot => exact .inr ⟨htop, hslot, rfl⟩
  | rootBranch _ _ _ _ => exact .inl rfl
  | branch _ _ _ _ _ _ => exact .inl rfl

/-- A scoped slot is entered in the element that it stands in. -/
theorem Joins.slots_of_isSlot (h : Joins a e warnings net) (hslot : e.role.isSlot)
    (htop : a.enclosing.head? = some p) (hp : a.template.net[p]? = some c)
    (hp' : net[p]? = some c') :
    c'.slots = Assoc.set e.role.slotKey a.template.net.length c.slots := by
  have hbranch := isBranch_of_isSlot hslot
  cases h with
  | root hnil =>
      rw [hnil] at hp
      cases hp
  | outside houtside _ =>
      rw [houtside] at htop
      cases htop
  | orphan _ _ hmarked _ _ => exact absurd (hmarked.symm.trans hbranch) (by simp)
  | child _ _ _ hnot => exact absurd (hslot.symm.trans hnot) (by simp)
  | slot htop' hc _ =>
      obtain rfl := Option.some.inj (htop.symm.trans htop')
      rcases getElem?_modify_concat_cases hc hp' with ⟨hne, _⟩ | ⟨_, rfl⟩ | ⟨rfl, _⟩
      · exact absurd rfl hne
      · obtain rfl := Option.some.inj (hp.symm.trans hc)
        rfl
      · exact absurd (List.getElem?_eq_some_iff.1 hp).1 (Nat.lt_irrefl _)
  | rootBranch houtside _ _ _ _ _ =>
      rw [houtside] at htop
      cases htop
  | branch _ _ _ _ _ _ hmarked => exact absurd (hmarked.symm.trans hbranch) (by simp)

/-- An element is among the old ones, with its role, or is the new one. -/
theorem Joins.role_cases (h : Joins a e warnings net) (hi : net[i]? = some x) :
    (∃ old, a.template.net[i]? = some old ∧ x.role = old.role) ∨
      (i = a.template.net.length ∧ x.role = e.role) := by
  rcases h.gains hi with ⟨old, hold, hgains⟩ | ⟨hlast, rfl⟩
  · exact .inl ⟨old, hold, hgains.role_eq⟩
  · exact .inr ⟨hlast, rfl⟩

section Entered

variable (h : Joins a e warnings net) (hp : a.template.net[p]? = some c)
  (hp' : net[p]? = some c') (hold : Entered a.template.net p c)

include h hp hp' hold

/-- A new slot is the last one under its name. -/
theorem Joins.entered_slot (hslot : e.role.isSlot) (htop : a.enclosing.head? = some p) :
    Entered net p c' := by
  have hslots := h.slots_of_isSlot hslot htop hp hp'
  refine ⟨?_, ?_, ?_⟩
  · rw [hslots]
    exact Assoc.nodup_keys_set hold.keys _ _
  · intro entry hentry k y hk hy hparent hkey
    rw [hslots] at hentry
    -- Under the name of the new slot there is only that slot; other names are as before.
    by_cases hset : entry.1 = e.role.slotKey
    · rw [Assoc.eq_of_mem_set hold.keys hentry hset]
      have hlt := (List.getElem?_eq_some_iff.1 hk).1
      rw [h.length_eq] at hlt
      exact Nat.le_of_lt_succ hlt
    · have hmem : entry ∈ c.slots := by
        rcases Assoc.mem_set hentry with hmem | rfl
        · exact hmem
        · exact absurd rfl hset
      rcases h.role_cases hk with ⟨old, hk, hrole⟩ | ⟨_, hrole⟩
      · rw [hrole] at hy hparent hkey
        exact hold.latest entry hmem hk hy hparent hkey
      · rw [hrole] at hkey
        exact absurd hkey.symm hset
  · intro k y hk hy hparent
    rw [hslots, Assoc.mem_keys_set]
    rcases h.role_cases hk with ⟨old, hk, hrole⟩ | ⟨_, hrole⟩
    · rw [hrole] at hy hparent ⊢
      exact .inl (hold.entry hk hy hparent)
    · exact .inr (by rw [hrole])

/-- Any other element leaves the entries alone. -/
theorem Joins.entered_other (hnew : e.New a.template.net.length a.enclosing.head?)
    (hother : ¬(e.role.isSlot ∧ a.enclosing.head? = some p)) : Entered net p c' := by
  have hslots : c'.slots = c.slots := by
    rcases h.exists_gains hp with ⟨_, hnet, hgains⟩
    obtain rfl := Option.some.inj (hp'.symm.trans hnet)
    rcases hgains.slots_eq with hsame | ⟨htop, hslot, _⟩
    · exact hsame
    · exact absurd ⟨hslot, htop⟩ hother
  have hcases : ∀ {k : ElementId} {y : Bonds}, net[k]? = some y → y.role.isSlot →
      y.role.parent = some p → ∃ old, a.template.net[k]? = some old ∧ y.role = old.role := by
    intro k y hk hy hparent
    rcases h.role_cases hk with hold | ⟨_, hrole⟩
    · exact hold
    · rw [hrole] at hy hparent
      exact absurd ⟨hy, hnew.parent_eq.symm.trans hparent⟩ hother
  refine ⟨?_, ?_, ?_⟩
  · rw [hslots]
    exact hold.keys
  · intro entry hentry k y hk hy hparent hkey
    rw [hslots] at hentry
    rcases hcases hk hy hparent with ⟨old, hk, hrole⟩
    rw [hrole] at hy hparent hkey
    exact hold.latest entry hentry hk hy hparent hkey
  · intro k y hk hy hparent
    rcases hcases hk hy hparent with ⟨old, hk, hrole⟩
    rw [hrole] at hy hparent ⊢
    rw [hslots]
    exact hold.entry hk hy hparent

end Entered

theorem Joins.entered (h : Joins a e warnings net) (ha : a.Treelike)
    (hnew : e.New a.template.net.length a.enclosing.head?)
    (hall : ∀ {p c}, a.template.net[p]? = some c → Entered a.template.net p c)
    (hp' : net[p]? = some c') : Entered net p c' := by
  rcases h.gains hp' with ⟨c, hp, _⟩ | ⟨rfl, rfl⟩
  · by_cases hslot : e.role.isSlot ∧ a.enclosing.head? = some p
    · exact h.entered_slot hp hp' (hall hp) hslot.1 hslot.2
    · exact h.entered_other hp hp' (hall hp) hnew hslot
  · -- Nothing stands in the new element.
    refine ⟨?_, ?_, ?_⟩
    · simp [hnew.slots_eq]
    · simp [hnew.slots_eq]
    · intro k y hk _ hparent
      exact absurd (h.parent_lt ha hnew hk hparent) (Nat.lt_irrefl _)

theorem entered_run (hrun : events.foldlM (feed options size) {} = .ok b)
    (hp : b.template.net[p]? = some c) : Entered b.template.net p c := by
  have hall : ∀ p c, b.template.net[p]? = some c → Entered b.template.net p c := by
    refine net_invariant (P := fun net => ∀ p c, net[p]? = some c → Entered net p c) (by simp) ?_
      hrun
    intro a e warnings net ha hnew hjoins hall p c hp
    exact hjoins.entered ha hnew (fun hp => hall _ _ hp) hp
  exact hall p c hp

/-! ## Where elements hang -/

/-- What leads to an element that has been linked without a warning. -/
inductive Attached (net : List Bonds) (id : ElementId) (role : Role) : Prop where
  | root : id = 0 → Attached net id role
  | child {p : ElementId} {c : Bonds} :
      net[p]? = some c → id ∈ c.children → Attached net id role
  /-- Scoped slots are followed by the entries of the element that they stand in. -/
  | slot {p : ElementId} {c : Bonds} :
      net[p]? = some c → role.parent = some p → role.isSlot → Attached net id role
  | branch {head : ElementId} {c : Bonds} {b : Branch} :
      net[head]? = some c → b ∈ c.branches → b.block = id → id ≠ head → Attached net id role

theorem Gains.mem_children (h : Gains a e i c c') (hj : j ∈ c.children) : j ∈ c'.children := by
  rcases h.children_eq with heq | ⟨_, heq⟩
  · rw [heq]
    exact hj
  · rw [heq]
    exact List.mem_append_left _ hj

/-- No link is ever taken away, but for the entries of scoped slots. -/
theorem Joins.attached {role : Role} (h : Joins a e warnings net)
    (hj : Attached a.template.net j role) : Attached net j role := by
  cases hj with
  | root hzero => exact .root hzero
  | child hp hmem =>
      rcases h.exists_gains hp with ⟨c', hp', hgains⟩
      exact .child hp' (hgains.mem_children hmem)
  | slot hp hparent hslot =>
      rcases h.exists_gains hp with ⟨c', hp', _⟩
      exact .slot hp' hparent hslot
  | branch hhead hb hblock hne =>
      rcases h.exists_gains hhead with ⟨c', hhead', hgains⟩
      exact .branch hhead' (hgains.mem_branches hb) hblock hne

/-- Without a warning, the new element hangs somewhere. -/
theorem Joins.attached_new (h : Joins a e warnings net) (hwarnings : warnings = #[])
    (hnew : e.New a.template.net.length a.enclosing.head?) (hseveral : ¬a.severalRoots) :
    Attached net a.template.net.length e.role := by
  have hbranch : ∀ {head : ElementId} {c : Bonds}, a.template.net[head]? = some c →
      Attached ((a.template.net ++ [e.bonds]).modify head
        (·.addBranch ⟨e.role.elseCondition, a.template.net.length⟩))
        a.template.net.length e.role := by
    intro head c hhead
    have hlt := (List.getElem?_eq_some_iff.1 hhead).1
    exact .branch (getElem?_modify_concat_self _ hhead)
      (List.mem_append_right _ (List.mem_singleton_self _)) rfl (Nat.ne_of_gt hlt)
  cases h with
  | root hnil =>
      rw [hnil]
      exact .root rfl
  | outside _ hreported => exact absurd hreported (by simp [hseveral, hwarnings])
  | orphan _ _ _ _ hreported => exact absurd hwarnings hreported
  | child _ hp _ _ =>
      exact .child (getElem?_modify_concat_self _ hp)
        (List.mem_append_right _ (List.mem_singleton_self _))
  | slot htop hp hslot =>
      exact .slot (getElem?_modify_concat_self _ hp) (hnew.parent_eq.trans htop) hslot
  | rootBranch _ hhead _ _ _ _ => exact hbranch hhead
  | branch _ _ _ hhead _ _ _ => exact hbranch hhead

/-- As long as nothing is reported, every element hangs somewhere. -/
def Complete (a : Assembly) : Prop :=
  a.warnings = #[] → ¬a.severalRoots ∧
    ∀ id x, a.template.net[id]? = some x → Attached a.template.net id x.role

theorem complete_empty : Complete {} := by
  intro _
  refine ⟨by simp, ?_⟩
  intro id x hx
  simp [Template.net] at hx

theorem Complete.feed {event : Event} (h : a.Complete) (ha : a.Treelike)
    (hfeed : Assembly.feed options size a event = .ok b) : b.Complete := by
  intro hwarnings
  rcases h ((feed_reports hfeed).eq_empty hwarnings) with ⟨hseveral, hall⟩
  constructor
  · rcases feed_severalRoots hfeed with hsame | hreported
    · rw [hsame]
      exact hseveral
    · exact absurd hwarnings hreported
  · intro id x hx
    rcases feed_net hfeed with ⟨tag, unary, _, hopen⟩ | hsame
    · rcases openElement_joins ha hopen with ⟨e, hnew, hjoins⟩
      rcases hjoins.role_cases hx with ⟨old, hold, hrole⟩ | ⟨rfl, hrole⟩
      · rw [hrole]
        exact hjoins.attached (hall id old hold)
      · rw [hrole]
        exact hjoins.attached_new hwarnings hnew hseveral
    · rw [hsame] at hx ⊢
      exact hall id x hx

theorem complete_run (hrun : events.foldlM (feed options size) {} = .ok b) : b.Complete := by
  have hkeep : ∀ {event : Event} {current next : Assembly},
      feed options size current event = .ok next →
      current.Treelike ∧ current.Complete → next.Treelike ∧ next.Complete := by
    rintro event current next hfeed ⟨htree, hcomplete⟩
    exact ⟨htree.feed hfeed, hcomplete.feed htree hfeed⟩
  exact (foldlM_invariant (P := fun a => a.Treelike ∧ a.Complete) hkeep hrun
    ⟨treelike_empty, complete_empty⟩).2

end Assembly

/-! ## What can be reached -/

namespace Template

variable {t : Template} {id s : ElementId} {e : Element}

/-- The elements that links lead to from the root. -/
inductive Reachable (t : Template) : ElementId → Prop where
  | root {id : ElementId} : t.root = some id → Reachable t id
  | link {i j : ElementId} {e : Element} :
      Reachable t i → t.elements[i]? = some e → j ∈ e.links → Reachable t j

/-- The element `id` is a scoped slot, and a later one in the same element has the same name. -/
def Replaced (t : Template) (id : ElementId) : Prop :=
  ∃ slot later other p, t.elements[id]? = some slot ∧ slot.isScopedSlot ∧ slot.parent = some p ∧
    t.elements[later]? = some other ∧ other.isScopedSlot ∧ other.parent = some p ∧
    id < later ∧ other.slotKey = slot.slotKey

theorem mem_ancestors_iff (ht : t.IsTree) (he : t.elements[id]? = some e) :
    s ∈ t.ancestors id ↔ s = id ∨ ∃ p, e.parent = some p ∧ s ∈ t.ancestors p := by
  rw [ancestors, he, Option.bind_some]
  cases hparent : e.parent with
  | none => simp
  | some p =>
      have hlt := ht.parent_lt he p hparent
      simp [hlt]

end Template

namespace Assembly

variable {b : Assembly} {options : Options} {size : Nat} {events : List Event} {id : ElementId}
  {e outer : Element}

section Run

variable (hrun : events.foldlM (feed options size) {} = .ok b)

include hrun

theorem not_replaced_of_child {p : ElementId} (houter : b.template.elements[p]? = some outer)
    (hid : id ∈ outer.childIds) : ¬b.template.Replaced id := by
  rintro ⟨slot, _, _, _, hslot, hmarked, _⟩
  rcases (sorted_run hrun (Template.net_of_getElem? houter)).child id hid with ⟨x, hx, _, hnot⟩
  obtain rfl := Option.some.inj ((Template.net_of_getElem? hslot).symm.trans hx)
  exact absurd (hmarked.symm.trans hnot) (by simp)

/-- An entry leads to a scoped slot with its name. -/
theorem exists_slot_run {p : ElementId} {entry : String × ElementId}
    (houter : b.template.elements[p]? = some outer)
    (hentry : entry ∈ outer.directives.scopedSlots) :
    ∃ slot, b.template.elements[entry.2]? = some slot ∧ slot.isScopedSlot ∧
      slot.parent = some p ∧ slot.slotKey = entry.1 := by
  have hsorted := sorted_run hrun (Template.net_of_getElem? houter)
  rcases hsorted.slot entry hentry with ⟨x, hx, _, hmarked, hkey⟩
  rcases Template.exists_element_of_net hx with ⟨slot, hslot, rfl⟩
  have hinner : entry.2 ∈ outer.inner := List.mem_append_right _ (List.mem_map_of_mem hentry)
  have htree := (treelike_empty.run hrun).isTree
  rcases htree.inner_parent houter entry.2 hinner with ⟨child, hchild, hparent⟩
  obtain rfl := Option.some.inj (hslot.symm.trans hchild)
  exact ⟨slot, hslot, hmarked, hparent, hkey⟩

/-- What is entered as a scoped slot is the last one with its name. -/
theorem not_replaced_of_slot {p : ElementId} (houter : b.template.elements[p]? = some outer)
    (hid : id ∈ outer.directives.scopedSlots.map (·.2)) : ¬b.template.Replaced id := by
  rintro ⟨slot, later, other, q, hslot, _, hparent, hother, hmarked, hparent', hlt, hkey⟩
  rcases List.mem_map.1 hid with ⟨entry, hentry, rfl⟩
  rcases exists_slot_run hrun houter hentry with ⟨slot', hslot', _, hparent'', hkey'⟩
  obtain rfl := Option.some.inj (hslot.symm.trans hslot')
  obtain rfl := Option.some.inj (hparent.symm.trans hparent'')
  have hlatest := (entered_run hrun (Template.net_of_getElem? houter)).latest entry hentry
    (Template.net_of_getElem? hother) hmarked hparent' (hkey.trans hkey')
  exact absurd hlt (Nat.not_lt_of_le hlatest)

/-- A scoped slot that is not entered has been replaced. -/
theorem entered_or_replaced {p : ElementId} (he : b.template.elements[id]? = some e)
    (hmarked : e.isScopedSlot) (hparent : e.parent = some p)
    (houter : b.template.elements[p]? = some outer) :
    id ∈ outer.directives.scopedSlots.map (·.2) ∨ b.template.Replaced id := by
  have hentered := entered_run hrun (Template.net_of_getElem? houter)
  have hnet := Template.net_of_getElem? he
  rcases List.mem_map.1 (hentered.entry hnet hmarked hparent) with ⟨entry, hentry, hkey⟩
  have hle := hentered.latest entry hentry hnet hmarked hparent hkey.symm
  rcases Nat.lt_or_eq_of_le hle with hlt | rfl
  · rcases exists_slot_run hrun houter hentry with ⟨other, hother, hmarked', hparent', hkey'⟩
    exact .inr ⟨e, entry.2, other, p, he, hmarked, hparent, hother, hmarked', hparent', hlt,
      hkey'.trans hkey⟩
  · exact .inl (List.mem_map_of_mem hentry)

/-- The head of a chain with further branches has not been replaced: it is a child, or outside
all elements. -/
theorem not_replaced_of_head {branch : Branch} (he : b.template.elements[id]? = some e)
    (hbranch : branch ∈ e.directives.branches) (hne : branch.block ≠ id) :
    ¬b.template.Replaced id := by
  intro hreplaced
  have hreplaced' := hreplaced
  rcases hreplaced with ⟨slot, _, _, p, hslot, _, hparent, _⟩
  obtain rfl := Option.some.inj (he.symm.trans hslot)
  have htree := (treelike_empty.run hrun).isTree
  have hlt := Nat.lt_trans (htree.parent_lt he p hparent) (Array.getElem?_eq_some_iff.1 he).1
  have houter := Array.getElem?_eq_getElem hlt
  have hgathers := gathers_run hrun (Template.net_of_getElem? houter)
  rcases hgathers.inFront (Template.net_of_getElem? he) hparent branch hbranch with hself | hfront
  · exact hne hself
  · exact not_replaced_of_child hrun houter hfront.1 hreplaced'

/-- A branch has not been replaced, and neither has what is around it. -/
theorem not_replaced_of_branch {branch : Branch} (he : b.template.elements[id]? = some e)
    (hbranch : branch ∈ e.directives.branches)
    (h : ∀ s ∈ b.template.ancestors id, ¬b.template.Replaced s) :
    ∀ s ∈ b.template.ancestors branch.block, ¬b.template.Replaced s := by
  have htree := (treelike_empty.run hrun).isTree
  by_cases hne : branch.block = id
  · rw [hne]
    exact h
  · intro s hs
    rcases htree.branch_parent he branch hbranch hne with ⟨x, hx, hparent⟩
    rcases (Template.mem_ancestors_iff htree hx).1 hs with rfl | ⟨p, hp, hs⟩
    · -- What is marked as a branch is no scoped slot.
      have hchain := chain_run hrun (Template.net_of_getElem? he)
      rcases exists_branch_run hrun he (hchain.mem_tail_iff.2 ⟨hbranch, hne⟩) with
        ⟨x', hx', _, hmarked, _⟩
      rintro ⟨slot, _, _, _, hslot, hscoped, _⟩
      obtain rfl := Option.some.inj (hx'.symm.trans hslot)
      exact absurd (hmarked.symm.trans (isBranch_of_isSlot hscoped)) (by simp)
    · exact h s ((Template.mem_ancestors_iff htree he).2 (.inr ⟨p, hparent ▸ hp, hs⟩))

/-- Nothing that can be reached is in a slot that has been replaced. -/
theorem not_replaced_of_reachable (h : b.template.Reachable id) :
    ∀ s ∈ b.template.ancestors id, ¬b.template.Replaced s := by
  have htreelike := treelike_empty.run hrun
  have htree := htreelike.isTree
  induction h with
  | root hroot =>
      rcases htree.root _ hroot with ⟨_, ⟨e, he, hparent⟩, _⟩
      intro s hs
      rcases (Template.mem_ancestors_iff htree he).1 hs with rfl | ⟨p, hp, _⟩
      · rintro ⟨slot, _, _, q, hslot, _, hq, _⟩
        obtain rfl := Option.some.inj (he.symm.trans hslot)
        exact absurd (hparent.symm.trans hq) (by simp)
      · exact absurd (hparent.symm.trans hp) (by simp)
  | @link i j e _ he hj ih =>
      have hinner : j ∈ e.inner → ¬b.template.Replaced j →
          ∀ s ∈ b.template.ancestors j, ¬b.template.Replaced s := by
        intro hmem hnot s hs
        rcases htree.inner_parent he j hmem with ⟨child, hchild, hparent⟩
        rcases (Template.mem_ancestors_iff htree hchild).1 hs with rfl | ⟨p, hp, hs⟩
        · exact hnot
        · obtain rfl := Option.some.inj (hparent.symm.trans hp)
          exact ih s hs
      rcases List.mem_append.1 hj with hj | hslot
      · rcases List.mem_append.1 hj with hchild | hbranch
        · exact hinner (List.mem_append_left _ hchild) (not_replaced_of_child hrun he hchild)
        · rcases List.mem_map.1 hbranch with ⟨branch, hmem, rfl⟩
          exact not_replaced_of_branch hrun he hmem ih
      · exact hinner (List.mem_append_right _ hslot) (not_replaced_of_slot hrun he hslot)

/-- Without a warning, what is in no slot that has been replaced can be reached. -/
theorem reachable_of_not_replaced (hwarnings : b.warnings = #[])
    (hid : id < b.template.elements.size)
    (h : ∀ s ∈ b.template.ancestors id, ¬b.template.Replaced s) : b.template.Reachable id := by
  have htreelike := treelike_empty.run hrun
  have htree := htreelike.isTree
  -- By strong induction on the number: what leads to an element has been opened before it.
  induction id using Nat.strongRecOn with
  | ind id ih =>
      have he := Array.getElem?_eq_getElem hid
      generalize b.template.elements[id] = e at he
      have hup : ∀ {p s : ElementId}, e.parent = some p → s ∈ b.template.ancestors p →
          s ∈ b.template.ancestors id := by
        intro p s hparent hs
        exact (Template.mem_ancestors_iff htree he).2 (.inr ⟨p, hparent, hs⟩)
      -- The element around can be reached, being in no slot that has been replaced either.
      have houter : ∀ {p : ElementId}, e.parent = some p → b.template.Reachable p := by
        intro p hparent
        have hlt := htree.parent_lt he p hparent
        exact ih p hlt (Nat.lt_trans hlt hid) fun s hs => h s (hup hparent hs)
      cases (complete_run hrun hwarnings).2 id _ (Template.net_of_getElem? he) with
      | root hzero =>
          subst hzero
          rcases htreelike.root with ⟨_, hnone⟩ | ⟨hroot, _⟩
          · exact absurd hid (by simp [hnone])
          · exact .root hroot
      | child hp hchild =>
          rcases Template.exists_element_of_net hp with ⟨outer, hget, rfl⟩
          have hinner : id ∈ outer.inner := List.mem_append_left _ hchild
          rcases htree.inner_parent hget id hinner with ⟨child, hchild', hparent⟩
          obtain rfl := Option.some.inj (he.symm.trans hchild')
          exact .link (houter hparent) hget
            (List.mem_append_left _ (List.mem_append_left _ hchild))
      | slot hp hparent hslot =>
          rcases Template.exists_element_of_net hp with ⟨outer, hget, rfl⟩
          rcases entered_or_replaced hrun he hslot hparent hget with hmem | hreplaced
          · exact .link (houter hparent) hget (List.mem_append_right _ hmem)
          · exact absurd hreplaced (h id (mem_ancestors_self _ _))
      | @branch head c branch hhead hbranch hblock hne =>
          subst hblock
          rcases Template.exists_element_of_net hhead with ⟨first, hget, rfl⟩
          rcases htree.branch_parent hget branch hbranch hne with ⟨x, hx, hparent⟩
          obtain rfl := Option.some.inj (he.symm.trans hx)
          have hchain := chain_run hrun hhead
          have hlt := hchain.lt_of_mem_tail (hchain.mem_tail_iff.2 ⟨hbranch, hne⟩)
          refine .link (ih head hlt (Nat.lt_trans hlt hid) fun s hs => ?_) hget
            (List.mem_append_left _ (List.mem_append_right _ (List.mem_map_of_mem hbranch)))
          rcases (Template.mem_ancestors_iff htree hget).1 hs with rfl | ⟨p, hp, hs⟩
          · exact not_replaced_of_head hrun hget hbranch hne
          · exact h s (hup (hparent.trans hp) hs)

end Run

end Assembly

variable {options : Options} {source : String} {parsed : Parsed} {id : ElementId}

/-- When nothing is reported, every element can be reached from the root, unless it is in a scoped
slot that a later one with the same name has taken the place of. -/
theorem parse_reachable (h : parse options source = .ok parsed) (hwarnings : parsed.warnings = [])
    (hid : id < parsed.template.elements.size) :
    parsed.template.Reachable id ↔
      ∀ s ∈ parsed.template.ancestors id, ¬parsed.template.Replaced s := by
  rcases parse_eq_ok h with ⟨a, hrun, htemplate, hfinish⟩
  rw [htemplate] at hid ⊢
  have hfinished : (a.finish (Text.byteLength source.toList)).warnings = #[] :=
    Array.toList_eq_nil_iff.1 (hfinish.symm.trans hwarnings)
  have hquiet := (Assembly.reports_finish _ a).eq_empty hfinished
  exact ⟨Assembly.not_replaced_of_reachable hrun,
    Assembly.reachable_of_not_replaced hrun hquiet hid⟩

/-- The first of two scoped slots with the same name is lost, with what is inside it. -/
theorem parse_reachable_replaced_slot :
    ∃ parsed,
      parse {} "<p><b slot-scope='s'><i></i></b><u slot-scope='t'></u></p>" = .ok parsed ∧
      parsed.warnings = [] ∧ 2 < parsed.template.elements.size ∧
      ¬parsed.template.Reachable 2 := by
  have hread : ((parse {} "<p><b slot-scope='s'><i></i></b><u slot-scope='t'></u></p>").map
      fun parsed => (parsed.warnings, parsed.template.ancestors 2,
        parsed.template.net.map (·.role))).toOption =
      some ([], [2, 1, 0],
        [⟨none, none, none, false, false, Element.defaultSlot⟩,
          ⟨some 0, none, none, false, true, Element.defaultSlot⟩,
          ⟨some 1, none, none, false, false, Element.defaultSlot⟩,
          ⟨some 0, none, none, false, true, Element.defaultSlot⟩]) := by
    decide +kernel
  cases h : parse {} "<p><b slot-scope='s'><i></i></b><u slot-scope='t'></u></p>" with
  | error error =>
      rw [h] at hread
      cases hread
  | ok parsed =>
      rw [h] at hread
      obtain ⟨hwarnings, hread⟩ := Prod.mk.inj (Option.some.inj hread)
      obtain ⟨hancestors, hroles⟩ := Prod.mk.inj hread
      have hrole : ∀ (id : ElementId) {role : Role},
          (parsed.template.net.map (·.role))[id]? = some role →
          ∃ e, parsed.template.elements[id]? = some e ∧ e.role = role := by
        intro id role hid
        rw [List.getElem?_map, Template.getElem?_net, Option.map_map] at hid
        exact Option.map_eq_some_iff.1 hid
      rw [hroles] at hrole
      rcases hrole 1 rfl with ⟨slot, hslot, hs⟩
      rcases hrole 3 rfl with ⟨other, hother, ho⟩
      have hreplaced : parsed.template.Replaced 1 :=
        ⟨slot, 3, other, 0, hslot, congrArg Role.isSlot hs, congrArg Role.parent hs, hother,
          congrArg Role.isSlot ho, congrArg Role.parent ho, by decide,
          (congrArg Role.slotKey ho).trans (congrArg Role.slotKey hs).symm⟩
      have hlt : 2 < parsed.template.elements.size :=
        Nat.lt_trans (by decide) (Array.getElem?_eq_some_iff.1 hother).1
      refine ⟨parsed, rfl, hwarnings, hlt, fun hreachable => ?_⟩
      exact (parse_reachable h hwarnings hlt).1 hreachable 1 (by simp [hancestors]) hreplaced

end TemplateMarkup
