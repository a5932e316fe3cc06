import TemplateMarkup.Proofs.Template.Bonds
import TemplateMarkup.Proofs.Template.Layout

/-!
# Conditional chains

An element with a condition starts a chain, and the else branches behind it join that chain. Two
paths lead there: outside all elements a branch joins the chain of the root, unless that has ended
in a plain else, and inside an element it joins the chain of the last child. This file shows:

* `Assembly.Chain` — what every chain has, on whichever path it has grown,
* `Assembly.Gathers` — inside an element, a chain takes all branches up to the next child,
* `Assembly.Arranged.apart_feed` — no text is left between a chain and its branches,
* `parse_chains` — what this makes of the chains of a parsed template,
* `parse_chain_branches` — which elements are the branches of a chain.
-/

namespace TemplateMarkup

open Element (Bonds)

/-- Of the given children, `head` is the last one in front of the element `id`. -/
def InFront (children : List ElementId) (head id : ElementId) : Prop :=
  head ∈ children ∧ head < id ∧ ∀ k ∈ children, head < k → id < k

namespace Assembly

variable {a b : Assembly} {e : Element} {options : Options} {size : Nat}
  {warnings : Array Warning} {net : List Bonds} {i p head : ElementId} {c c' around : Bonds}
  {parent : Option ElementId} {events : List Event}

/-! ## Numbers in order -/

theorem pairwise_lt_concat {ids : List ElementId} {id : ElementId} (h : ids.Pairwise (· < ·))
    (hlt : ∀ j ∈ ids, j < id) : (ids ++ [id]).Pairwise (· < ·) := by
  refine List.pairwise_append.2 ⟨h, List.pairwise_singleton _ _, ?_⟩
  intro j hj k hk
  rw [List.mem_singleton.1 hk]
  exact hlt j hj

theorem le_getLast {ids : List ElementId} {last j : ElementId} (h : ids.Pairwise (· < ·))
    (hlast : ids.getLast? = some last) (hj : j ∈ ids) : j ≤ last := by
  rw [← List.dropLast_append_getLast? last hlast] at h hj
  rcases List.mem_append.1 hj with hj | hj
  · exact Nat.le_of_lt ((List.pairwise_append.1 h).2.2 j hj last (List.mem_singleton_self last))
  · exact Nat.le_of_eq (List.mem_singleton.1 hj)

/-! ## What every chain has -/

/-- The chain of the element `id`, in a template of `count` elements. -/
structure Chain (count : Nat) (id : ElementId) (c : Bonds) : Prop where
  /-- A branch has no condition of its own. -/
  mark : c.role.isBranch → c.role.condition = none
  /-- A chain starts with the element that has the condition. -/
  start : (c.role.condition = none ∧ c.branches = []) ∨
    ∃ condition rest, c.role.condition = some condition ∧
      c.branches = ⟨some condition, id⟩ :: rest
  lt_count : ∀ b ∈ c.branches, b.block < count
  increasing : (c.branches.map (·.block)).Pairwise (· < ·)
  /-- Outside all elements, only the last branch can be a plain else. -/
  ended : c.role.parent = none → ∀ b ∈ c.branches.dropLast, b.condition.isSome

theorem Chain.mono {count count' : Nat} (h : Chain count i c) (hle : count ≤ count') :
    Chain count' i c :=
  { h with lt_count := fun b hb => Nat.lt_of_lt_of_le (h.lt_count b hb) hle }

/-- The further branches have higher numbers than the element itself. -/
theorem Chain.lt_of_mem_tail {count : Nat} {b : Branch} (h : Chain count i c)
    (hb : b ∈ c.branches.tail) : i < b.block := by
  rcases h.start with ⟨_, hnil⟩ | ⟨condition, rest, _, hbranches⟩
  · rw [hnil] at hb
    cases hb
  · have hincreasing := h.increasing
    rw [hbranches] at hincreasing hb
    exact List.rel_of_pairwise_cons hincreasing (List.mem_map_of_mem hb)

theorem Chain.mem_tail_iff {count : Nat} {b : Branch} (h : Chain count i c) :
    b ∈ c.branches.tail ↔ b ∈ c.branches ∧ b.block ≠ i := by
  constructor
  · intro hb
    exact ⟨List.mem_of_mem_tail hb, Nat.ne_of_gt (h.lt_of_mem_tail hb)⟩
  · rintro ⟨hb, hne⟩
    rcases h.start with ⟨_, hnil⟩ | ⟨condition, rest, _, hbranches⟩
    · rw [hnil] at hb
      cases hb
    · rw [hbranches] at hb ⊢
      rcases List.mem_cons.1 hb with rfl | hb
      · exact absurd rfl hne
      · exact hb

theorem chain_new (hnew : e.New i parent) : Chain (i + 1) i e.bonds := by
  rcases hnew.chain with ⟨hnone, hbranches⟩ | ⟨condition, hsome, hbranch, hbranches⟩
  · refine ⟨fun _ => hnone, .inl ⟨hnone, hbranches⟩, ?_, ?_, ?_⟩
    · simp [hbranches]
    · simp [hbranches]
    · simp [hbranches]
  · refine ⟨fun h => ?_, .inr ⟨condition, [], hsome, hbranches⟩, ?_, ?_, ?_⟩
    · exact absurd (hbranch.symm.trans h) Bool.false_ne_true
    · simp [hbranches]
    · simp [hbranches]
    · simp [hbranches]

/-- A further branch has a higher number than those before it. -/
theorem Chain.addBranch {count : Nat} (h : Chain count i c) (hcondition : c.role.condition.isSome)
    (hopen : c.role.parent = none → c.branches.getLast?.any (·.condition.isSome))
    (condition : Option String) : Chain (count + 1) i (c.addBranch ⟨condition, count⟩) where
  mark := h.mark
  start := by
    rcases h.start with ⟨hnone, _⟩ | ⟨first, rest, hfirst, hbranches⟩
    · rw [hnone] at hcondition
      cases hcondition
    · exact .inr ⟨first, rest ++ [⟨condition, count⟩], hfirst, by simp [Bonds.addBranch, hbranches]⟩
  lt_count := by
    intro b hb
    rcases List.mem_append.1 hb with hb | hb
    · exact Nat.lt_succ_of_lt (h.lt_count b hb)
    · rw [List.mem_singleton.1 hb]
      exact Nat.lt_succ_self count
  increasing := by
    rw [Bonds.addBranch, List.map_append]
    refine pairwise_lt_concat h.increasing ?_
    intro j hj
    rcases List.mem_map.1 hj with ⟨b, hb, rfl⟩
    exact h.lt_count b hb
  ended := by
    intro hparent b hb
    have hlast := hopen hparent
    rw [Bonds.addBranch, List.dropLast_concat] at hb
    -- All but the last of the old branches have conditions already, and so has that one.
    cases hback : c.branches.getLast? with
    | none =>
        rw [List.getLast?_eq_none_iff.1 hback] at hb
        cases hb
    | some last =>
        rw [hback, Option.any_some] at hlast
        rw [← List.dropLast_append_getLast? last hback, List.mem_append, List.mem_singleton] at hb
        rcases hb with hb | rfl
        · exact h.ended hparent b hb
        · exact hlast

theorem Joins.chain (h : Joins a e warnings net) (hnew : e.New a.template.net.length parent)
    (hall : ∀ {i c}, a.template.net[i]? = some c → Chain a.template.net.length i c)
    (hi : net[i]? = some c') : Chain net.length i c' := by
  rw [h.length_eq]
  rcases h.gains hi with ⟨c, hc, hgains⟩ | ⟨rfl, rfl⟩
  · have hold := (hall hc).mono (Nat.le_succ _)
    cases hgains with
    | nothing => exact hold
    | child _ _ _ => exact ⟨hold.mark, hold.start, hold.lt_count, hold.increasing, hold.ended⟩
    | slot _ _ => exact ⟨hold.mark, hold.start, hold.lt_count, hold.increasing, hold.ended⟩
    | rootBranch _ hcondition hopen _ =>
        exact (hall hc).addBranch hcondition (fun _ => hopen) _
    | branch _ hparent _ _ hcondition _ =>
        refine (hall hc).addBranch hcondition (fun hnone => ?_) _
        rw [hnone] at hparent
        cases hparent
  · exact chain_new hnew

theorem chain_run (hrun : events.foldlM (feed options size) {} = .ok b)
    (hi : b.template.net[i]? = some c) : Chain b.template.net.length i c := by
  have hall : ∀ i c, b.template.net[i]? = some c → Chain b.template.net.length i c := by
    refine net_invariant (P := fun net => ∀ i c, net[i]? = some c → Chain net.length i c)
      (by simp) ?_ hrun
    intro a e warnings net _ hnew hjoins hall i c hi
    exact hjoins.chain hnew (fun hi => hall _ _ hi) hi
  exact hall i c hi

/-! ## Which branches a chain takes -/

/-- Inside the element `p`, the chain of a child with a condition has as its further branches the
else branches that the child is in front of. -/
structure Gathers (net : List Bonds) (p : ElementId) (around : Bonds) : Prop where
  lt_length : ∀ j ∈ around.children, j < net.length
  increasing : around.children.Pairwise (· < ·)
  taken : ∀ {head j : ElementId} {c x : Bonds}, InFront around.children head j →
    net[head]? = some c → c.role.condition.isSome → net[j]? = some x →
    x.role.parent = some p → x.role.isBranch → ∃ b ∈ c.branches, b.block = j
  inFront : ∀ {head : ElementId} {c : Bonds}, net[head]? = some c → c.role.parent = some p →
    ∀ b ∈ c.branches, b.block = head ∨ InFront around.children head b.block

theorem inFront_length_iff (h : Gathers net p around) :
    InFront around.children head net.length ↔ around.children.getLast? = some head := by
  constructor
  · rintro ⟨hmem, _, hlast⟩
    cases hback : around.children.getLast? with
    | none =>
        rw [List.getLast?_eq_none_iff.1 hback] at hmem
        cases hmem
    | some last =>
        -- The last child is not behind `head`, since it is no further than the end.
        have hlastMem := List.mem_of_getLast? hback
        have hle := le_getLast h.increasing hback hmem
        rcases Nat.lt_or_eq_of_le hle with hlt | heq
        · exact absurd (hlast last hlastMem hlt) (Nat.not_lt_of_lt (h.lt_length last hlastMem))
        · rw [heq]
  · intro hback
    have hmem := List.mem_of_getLast? hback
    refine ⟨hmem, h.lt_length head hmem, fun k hk hlt => ?_⟩
    exact absurd hlt (Nat.not_lt_of_le (le_getLast h.increasing hback hk))

theorem inFront_concat {children : List ElementId} {head id new : ElementId} (hid : id < new)
    (hhead : head ≠ new) : InFront (children ++ [new]) head id ↔ InFront children head id := by
  constructor
  · rintro ⟨hmem, hlt, hlast⟩
    refine ⟨?_, hlt, fun k hk => hlast k (List.mem_append_left _ hk)⟩
    rcases List.mem_append.1 hmem with hmem | hmem
    · exact hmem
    · exact absurd (List.mem_singleton.1 hmem) hhead
  · rintro ⟨hmem, hlt, hlast⟩
    refine ⟨List.mem_append_left _ hmem, hlt, fun k hk hk' => ?_⟩
    rcases List.mem_append.1 hk with hk | hk
    · exact hlast k hk hk'
    · rw [List.mem_singleton.1 hk]
      exact hid

/-- A branch inside an element joins the chain of the last child if that has a condition. -/
theorem Joins.of_lastChild (h : Joins a e warnings net) (hbranch : e.role.isBranch)
    (htop : a.enclosing.head? = some p) (hp : a.template.net[p]? = some around)
    (hlast : around.children.getLast? = some head) (hc : a.template.net[head]? = some c)
    (hcondition : c.role.condition.isSome) (hhead : net[head]? = some c') :
    c' = c.addBranch ⟨e.role.elseCondition, a.template.net.length⟩ := by
  cases h with
  | root hnil =>
      rw [hnil] at hp
      cases hp
  | outside houtside _ =>
      rw [houtside] at htop
      cases htop
  | orphan htop' hp' _ hnone _ =>
      obtain rfl := Option.some.inj (htop.symm.trans htop')
      obtain rfl := Option.some.inj (hp.symm.trans hp')
      rw [hnone head c hlast hc] at hcondition
      cases hcondition
  | child _ _ hbranch' _ => exact absurd (hbranch.symm.trans hbranch') (by simp)
  | slot _ _ hslot => exact absurd (hbranch.symm.trans (isBranch_of_isSlot hslot)) (by simp)
  | rootBranch houtside _ _ _ _ _ =>
      rw [houtside] at htop
      cases htop
  | branch htop' hp' hlast' hc' _ _ _ =>
      obtain rfl := Option.some.inj (htop.symm.trans htop')
      obtain rfl := Option.some.inj (hp.symm.trans hp')
      obtain rfl := Option.some.inj (hlast.symm.trans hlast')
      obtain rfl := Option.some.inj (hc.symm.trans hc')
      rcases getElem?_modify_concat_cases hc hhead with ⟨hne, _⟩ | ⟨_, heq⟩ | ⟨hlen, _⟩
      · exact absurd rfl hne
      · exact heq
      · exact absurd (List.getElem?_eq_some_iff.1 hc).1 (hlen ▸ Nat.lt_irrefl _)

theorem Gains.children_eq (h : Gains a e i c c') :
    c'.children = c.children ∨
      (e.role.isBranch = false ∧ c'.children = c.children ++ [a.template.net.length]) := by
  cases h with
  | nothing => exact .inl rfl
  | child _ hbranch _ => exact .inr ⟨hbranch, rfl⟩
  | slot _ _ => exact .inl rfl
  | rootBranch _ _ _ _ => exact .inl rfl
  | branch _ _ _ _ _ _ => exact .inl rfl

theorem Gains.children_of_isBranch (h : Gains a e i c c') (hbranch : e.role.isBranch) :
    c'.children = c.children := by
  rcases h.children_eq with heq | ⟨hnot, _⟩
  · exact heq
  · exact absurd (hbranch.symm.trans hnot) (by simp)

theorem Joins.children_of_isBranch (h : Joins a e warnings net) (hbranch : e.role.isBranch)
    (hp : a.template.net[p]? = some around) (hp' : net[p]? = some c) :
    c.children = around.children := by
  rcases h.gains hp' with ⟨old, hold, hgains⟩ | ⟨rfl, _⟩
  · obtain rfl := Option.some.inj (hp.symm.trans hold)
    exact hgains.children_of_isBranch hbranch
  · exact absurd (List.getElem?_eq_some_iff.1 hp).1 (Nat.lt_irrefl _)

theorem Gains.mem_branches (h : Gains a e i c c') {b : Branch} (hb : b ∈ c.branches) :
    b ∈ c'.branches := by
  cases h with
  | nothing => exact hb
  | child _ _ _ => exact hb
  | slot _ _ => exact hb
  | rootBranch _ _ _ _ => exact List.mem_append_left _ hb
  | branch _ _ _ _ _ _ => exact List.mem_append_left _ hb

/-- In front of an element that was there before, the new element makes no difference. -/
theorem Gains.inFront_iff {around' : Bonds} {j : ElementId} (h : Gains a e p around around')
    (hhead : head < a.template.net.length) (hj : j < a.template.net.length) :
    InFront around'.children head j ↔ InFront around.children head j := by
  rcases h.children_eq with heq | ⟨_, heq⟩
  · rw [heq]
  · rw [heq]
    exact inFront_concat hj (Nat.ne_of_lt hhead)

section Gathers

variable {around' x : Bonds} {j : ElementId} (h : Joins a e warnings net)
  (hp : a.template.net[p]? = some around) (hold : Gathers a.template.net p around)
  (hgains : Gains a e p around around')

include h hp hold hgains

/-- A branch is taken by the chain of the child in front of it. -/
theorem Joins.taken (hnew : e.New a.template.net.length a.enclosing.head?)
    (hfront : InFront around'.children head j) (hhead : net[head]? = some c')
    (hcondition : c'.role.condition.isSome) (hj : net[j]? = some x)
    (hparent : x.role.parent = some p) (hbranch : x.role.isBranch) :
    ∃ b ∈ c'.branches, b.block = j := by
  rcases h.gains hj with ⟨oldx, holdx, hgainsx⟩ | ⟨rfl, rfl⟩
  · -- An old branch: the child in front of it is older still.
    have hlt := (List.getElem?_eq_some_iff.1 holdx).1
    have hlt' := Nat.lt_trans hfront.2.1 hlt
    rw [hgainsx.role_eq] at hparent hbranch
    rcases h.gains hhead with ⟨c, hc, hgainsc⟩ | ⟨rfl, _⟩
    · rw [hgainsc.role_eq] at hcondition
      have hfront' := (hgains.inFront_iff hlt' hlt).1 hfront
      rcases hold.taken hfront' hc hcondition holdx hparent hbranch with ⟨b, hb, hblock⟩
      exact ⟨b, hgainsc.mem_branches hb, hblock⟩
    · exact absurd hlt' (Nat.lt_irrefl _)
  · -- The new branch: the child in front of it is the last one.
    rw [hgains.children_of_isBranch hbranch] at hfront
    have hlast := (inFront_length_iff hold).1 hfront
    rcases h.gains hhead with ⟨c, hc, hgainsc⟩ | ⟨rfl, _⟩
    · rw [hgainsc.role_eq] at hcondition
      have htop := hnew.parent_eq.symm.trans hparent
      rw [h.of_lastChild hbranch htop hp hlast hc hcondition hhead]
      exact ⟨_, List.mem_append_right _ (List.mem_singleton_self _), rfl⟩
    · exact absurd hfront.2.1 (Nat.lt_irrefl _)

/-- What a chain has taken stands between its head and the next child. -/
theorem Joins.inFront (hnew : e.New a.template.net.length parent)
    (hchain : ∀ {i c}, a.template.net[i]? = some c → Chain a.template.net.length i c)
    (hhead : net[head]? = some c') (hparent : c'.role.parent = some p) :
    ∀ b ∈ c'.branches, b.block = head ∨ InFront around'.children head b.block := by
  intro b hb
  rcases h.gains hhead with ⟨c, hc, hgainsc⟩ | ⟨rfl, rfl⟩
  · rw [hgainsc.role_eq] at hparent
    have hlt := (List.getElem?_eq_some_iff.1 hc).1
    have hbefore : b ∈ c.branches → b.block = head ∨ InFront around'.children head b.block := by
      intro hb
      rcases hold.inFront hc hparent b hb with hself | hfront
      · exact .inl hself
      · exact .inr ((hgains.inFront_iff hlt ((hchain hc).lt_count b hb)).2 hfront)
    cases hgainsc with
    | nothing => exact hbefore hb
    | child _ _ _ => exact hbefore hb
    | slot _ _ => exact hbefore hb
    | rootBranch hnone _ _ _ => exact absurd (hparent.symm.trans hnone) (by simp)
    | branch _ hparent' hp' hlast _ hbranch =>
        rcases List.mem_append.1 hb with hb | hb
        · exact hbefore hb
        · -- The head is the last child of the element that the new branch stands in.
          obtain rfl := Option.some.inj (hparent.symm.trans hparent')
          obtain rfl := Option.some.inj (hp.symm.trans hp')
          rw [List.mem_singleton.1 hb, hgains.children_of_isBranch hbranch]
          exact .inr ((inFront_length_iff hold).2 hlast)
  · -- The new element is in no chain but its own.
    rcases hnew.chain with ⟨_, hnone⟩ | ⟨condition, _, _, hself⟩
    · rw [hnone] at hb
      cases hb
    · rw [hself, List.mem_singleton] at hb
      exact .inl (by rw [hb])

end Gathers

/-- The parent of an element has been there before. -/
theorem Joins.parent_lt (h : Joins a e warnings net) (ha : a.Treelike)
    (hnew : e.New a.template.net.length a.enclosing.head?) (hi : net[i]? = some c)
    (hparent : c.role.parent = some p) : p < a.template.net.length := by
  rcases h.gains hi with ⟨old, hold, hgains⟩ | ⟨rfl, rfl⟩
  · rw [hgains.role_eq] at hparent
    rcases Template.exists_element_of_net hold with ⟨x, hx, rfl⟩
    exact Nat.lt_trans (ha.isTree.parent_lt hx p hparent) (List.getElem?_eq_some_iff.1 hold).1
  · have htop : a.enclosing.head? = some p := by
      rw [← hnew.parent_eq, ← hparent]
      rfl
    rcases List.head?_eq_some_iff.1 htop with ⟨outer, henclosing⟩
    rcases ha.net_of_enclosing henclosing with ⟨around, haround⟩
    exact (List.getElem?_eq_some_iff.1 haround).1

theorem Joins.gathers (h : Joins a e warnings net) (ha : a.Treelike)
    (hnew : e.New a.template.net.length a.enclosing.head?)
    (hchain : ∀ {i c}, a.template.net[i]? = some c → Chain a.template.net.length i c)
    (hall : ∀ {p around}, a.template.net[p]? = some around → Gathers a.template.net p around)
    {around' : Bonds} (hp : net[p]? = some around') : Gathers net p around' := by
  rcases h.gains hp with ⟨around, haround, hgains⟩ | ⟨rfl, rfl⟩
  · have hold := hall haround
    refine ⟨?_, ?_, h.taken haround hold hgains hnew, h.inFront haround hold hgains hnew hchain⟩
    · rw [h.length_eq]
      intro j hj
      rcases hgains.children_eq with heq | ⟨_, heq⟩
      · rw [heq] at hj
        exact Nat.lt_succ_of_lt (hold.lt_length j hj)
      · rw [heq, List.mem_append, List.mem_singleton] at hj
        rcases hj with hj | rfl
        · exact Nat.lt_succ_of_lt (hold.lt_length j hj)
        · exact Nat.lt_succ_self _
    · rcases hgains.children_eq with heq | ⟨_, heq⟩
      · rw [heq]
        exact hold.increasing
      · rw [heq]
        exact pairwise_lt_concat hold.increasing hold.lt_length
  · -- The new element has no children.
    have hnil := hnew.children_eq
    refine ⟨?_, ?_, ?_, ?_⟩
    · simp [hnil]
    · simp [hnil]
    · intro head j c x hfront
      rw [hnil] at hfront
      cases hfront.1
    · intro head c hhead hparent
      exact absurd (h.parent_lt ha hnew hhead hparent) (Nat.lt_irrefl _)

theorem gathers_run (hrun : events.foldlM (feed options size) {} = .ok b)
    (hp : b.template.net[p]? = some around) : Gathers b.template.net p around := by
  -- The chains are carried along: to place a new child, the numbers of all branches are needed.
  have hall : (∀ i c, b.template.net[i]? = some c → Chain b.template.net.length i c) ∧
      ∀ p around, b.template.net[p]? = some around → Gathers b.template.net p around := by
    refine net_invariant (P := fun net => (∀ i c, net[i]? = some c → Chain net.length i c) ∧
      ∀ p around, net[p]? = some around → Gathers net p around) (by simp) ?_ hrun
    rintro a e warnings net ha hnew hjoins ⟨hchain, hall⟩
    refine ⟨fun i c hi => ?_, fun p around hp => ?_⟩
    · exact hjoins.chain hnew (fun hi => hchain _ _ hi) hi
    · exact hjoins.gathers ha hnew (fun hi => hchain _ _ hi) (fun hp => hall _ _ hp) hp
  exact hall.2 p around hp

/-! ## Text between the branches -/

/-- No text of an element is left between a chain inside it and a branch of that chain. -/
def Apart (a : Assembly) : Prop :=
  ∀ {p head : ElementId} {outer : Element} {n : Node} {span : Span} {c : Bonds} {branch : Branch},
    a.template.elements[p]? = some outer → n ∈ outer.children.toList → n.textSpan? = some span →
    a.template.net[head]? = some c → c.role.parent = some p → branch ∈ c.branches →
    a.outline.Precedes n (.element head) ∨ a.outline.Precedes (.element branch.block) n

/-- When a branch has been linked, there is no text behind the last child. -/
theorem Links.back?_of_isBranch {outer : Element} (h : Links a i e b) (hbranch : e.role.isBranch)
    (htop : a.enclosing.head? = some p) (houter : b.template.elements[p]? = some outer) :
    outer.children.back? = outer.childIds.getLast?.map Node.element := by
  have hdrop : ∀ {outer : Element}, (a.dropText p).template.elements[p]? = some outer →
      outer.children.back? = outer.childIds.getLast?.map Node.element := by
    intro outer houter
    rw [dropText_template, Template.getElem?_modify, if_pos rfl] at houter
    rcases Option.map_eq_some_iff.1 houter with ⟨old, _, rfl⟩
    rw [back?_withoutText, childIds_withoutText]
  cases h with
  | root henclosing _ => simp [henclosing] at htop
  | rootBranch henclosing _ _ _ => simp [henclosing] at htop
  | rootOrphan henclosing _ _ _ => simp [henclosing] at htop
  | secondRoot henclosing _ _ _ => simp [henclosing] at htop
  | laterRoot henclosing _ _ _ => simp [henclosing] at htop
  | branch henclosing _ _ _ =>
      obtain rfl := Option.some.inj (htop.symm.trans (head?_enclosing henclosing))
      rw [addBranch_template] at houter
      rcases getElem?_modify_cases houter with ⟨old, hold, rfl | ⟨_, rfl⟩⟩
      · exact hdrop hold
      · change old.children.back? = old.childIds.getLast?.map Node.element
        exact hdrop hold
  | orphan henclosing _ _ =>
      obtain rfl := Option.some.inj (htop.symm.trans (head?_enclosing henclosing))
      exact hdrop houter
  | slot _ hnot _ => exact absurd hbranch hnot
  | child _ hnot _ => exact absurd hbranch hnot

section Apart

variable {tags : List StartTag} {last : Span} {event : Event} {n : Node} {branch : Branch}
  {outer : Element} {span : Span}

theorem known_of_net (hi : a.template.net[i]? = some c) : a.outline.Known (.element i) := by
  rintro _ ⟨rfl⟩
  have hlt := (List.getElem?_eq_some_iff.1 hi).1
  rw [Template.length_net] at hlt
  rwa [outline, Template.length_headers]

/-- The branches of a chain inside an element have that element as their parent. -/
theorem Treelike.parents_of_branch (ha : a.Treelike) (hi : a.template.net[i]? = some c)
    (hparent : c.role.parent = some p) (hb : branch ∈ c.branches) :
    a.outline.parents[branch.block]? = some (some p) := by
  rcases Template.exists_element_of_net hi with ⟨e, he, rfl⟩
  have hself := Template.parentAt_of_net hi
  have hblock : a.template.parentAt branch.block = a.template.parentAt i := by
    by_cases heq : branch.block = i
    · rw [heq]
    · exact ha.linked.follower_parent (Template.mem_followersAt he hb heq)
  rw [Outline.parents, List.getElem?_map]
  rw [hself, hparent, Template.parentAt_eq] at hblock
  exact hblock

theorem Treelike.known_of_branch (ha : a.Treelike) (hi : a.template.net[i]? = some c)
    (hb : branch ∈ c.branches) : a.outline.Known (.element branch.block) := by
  rcases Template.exists_element_of_net hi with ⟨e, he, rfl⟩
  rintro _ ⟨rfl⟩
  rw [outline, Template.length_headers]
  exact ha.isTree.branch_lt he branch hb

/-- What has been apart stays so. -/
theorem Arranged.apart_step (h : Arranged tags last a)
    (htimeline : Event.Timeline last (event :: events)) (hapart : a.Apart)
    (houter : a.template.elements[p]? = some outer) (hn : n ∈ outer.children.toList)
    (hspan : n.textSpan? = some span) (hc : a.template.net[head]? = some c)
    (hparent : c.role.parent = some p) (hb : branch ∈ c.branches) :
    (a.outline.step event).Precedes n (.element head) ∨
      (a.outline.step event).Precedes (.element branch.block) n := by
  have hknown := h.known houter hn
  rcases hapart houter hn hspan hc hparent hb with hbefore | hbehind
  · exact .inl (hbefore.step h.laid htimeline hknown (known_of_net hc))
  · exact .inr (hbehind.step h.laid htimeline (h.treelike.known_of_branch hc hb) hknown)

/-- A new text is behind all branches of the chains around it. -/
theorem Arranged.precedes_text {content : String} {around : List ElementId}
    (h : Arranged tags last a) (htimeline : Event.Timeline last (.text content span :: events))
    (henclosing : a.enclosing = p :: around) (hn : n.textSpan? = some span)
    (hc : a.template.net[head]? = some c) (hparent : c.role.parent = some p)
    (hb : branch ∈ c.branches) :
    (a.outline.step (.text content span)).Precedes (.element branch.block) n := by
  refine h.precedes_later htimeline (h.treelike.known_of_branch hc hb) ?_
    (fun _ => h.element_span_le) fun span' hspan' => ?_
  · exact h.closed_of_parent henclosing (h.treelike.parents_of_branch hc hparent hb)
  · rw [Outline.spanOf?_of_textSpan? hn] at hspan'
    cases hspan'
    exact htimeline.1

/-- The texts of an element precede its last child, if that is an element. -/
theorem precedes_back? {o : Outline} (hpairwise : outer.children.toList.Pairwise o.Precedes)
    (hback : outer.children.back? = some (.element head)) (hn : n ∈ outer.children.toList)
    (hspan : n.textSpan? = some span) : o.Precedes n (.element head) := by
  rw [← Array.getLast?_toList] at hback
  rw [← List.dropLast_append_getLast? _ hback] at hpairwise hn
  rcases List.mem_append.1 hn with hn | hn
  · exact (List.pairwise_append.1 hpairwise).2.2 n hn _ (List.mem_singleton_self _)
  · rw [List.mem_singleton.1 hn] at hspan
    cases hspan

/-- Where a start tag adds a branch, no text is left behind the chain. -/
theorem Arranged.apart_opened {tag : StartTag} {unary : Bool} (h : Arranged tags last a)
    (htimeline : Event.Timeline last (.opened tag unary :: events)) (hapart : a.Apart)
    (hfeed : Assembly.feed options size a (.opened tag unary) = .ok b)
    (houter : b.template.elements[p]? = some outer) (hn : n ∈ outer.children.toList)
    (hspan : n.textSpan? = some span) (hc' : b.template.net[head]? = some c')
    (hparent : c'.role.parent = some p) (hb : branch ∈ c'.branches) :
    (a.outline.step (.opened tag unary)).Precedes n (.element head) ∨
      (a.outline.step (.opened tag unary)).Precedes (.element branch.block) n := by
  have hpairwise := h.feed_children htimeline hfeed houter
  -- The text has been there before.
  obtain ⟨old, hold, hn'⟩ : ∃ old, a.template.elements[p]? = some old ∧
      n ∈ old.children.toList := by
    have hchildren := Assembly.feed_children h.laid.ordered hfeed houter
    rcases hchildren.text_cases hn hspan with hold | ⟨_, _, _, hevent⟩
    · exact hold
    · cases hevent
  rw [feed_opened] at hfeed
  rcases openElement_eq_ok hfeed with ⟨e, warnings, linked, hread, hlinks, rfl⟩
  rw [enter_template] at houter hc'
  have hnew := Element.new_of_ofStartTag hread
  have hjoins := hlinks.joins h.treelike
  rcases hjoins.gains hc' with ⟨c, hc, hgains⟩ | ⟨hhead, heq⟩
  · rw [hgains.role_eq] at hparent
    have hstep : branch ∈ c.branches → (a.outline.step (.opened tag unary)).Precedes n
          (.element head) ∨
        (a.outline.step (.opened tag unary)).Precedes (.element branch.block) n :=
      h.apart_step htimeline hapart hold hn' hspan hc hparent
    cases hgains with
    | nothing => exact hstep hb
    | child _ _ _ => exact hstep hb
    | slot _ _ => exact hstep hb
    | rootBranch hnone _ _ _ => exact absurd (hparent.symm.trans hnone) (by simp)
    | branch htop hparent' hp hlast _ hbranch =>
        rcases List.mem_append.1 hb with hb | _
        · exact hstep hb
        · -- A new branch: the chain is the last child, and no text is behind it.
          obtain rfl := Option.some.inj (hparent.symm.trans hparent')
          have hback := hlinks.back?_of_isBranch hbranch htop houter
          have hsame := hjoins.children_of_isBranch hbranch hp (Template.net_of_getElem? houter)
          rw [show outer.childIds = _ from hsame, hlast] at hback
          exact .inl (precedes_back? hpairwise hback hn hspan)
  · -- The new element itself: all text around it is in front of it.
    have htop : a.enclosing.head? = some p := by
      rw [← hnew.parent_eq, ← hparent, heq]
      rfl
    rcases List.head?_eq_some_iff.1 htop with ⟨around, henclosing⟩
    rw [hhead, Template.length_net]
    exact .inl (h.precedes_opened htimeline henclosing hold hn')

/-- Every event keeps the texts apart. -/
theorem Arranged.apart_feed (h : Arranged tags last a)
    (htimeline : Event.Timeline last (event :: events)) (hapart : a.Apart)
    (hfeed : Assembly.feed options size a event = .ok b) : b.Apart := by
  intro p head outer n span c branch houter hn hspan hc hparent hb
  rw [feed_outline hfeed]
  -- Only a start tag can lengthen a chain; any other event can at most add a text behind it.
  rcases feed_net hfeed with ⟨tag, unary, rfl, _⟩ | hsame
  · exact h.apart_opened htimeline hapart hfeed houter hn hspan hc hparent hb
  · rw [hsame] at hc
    have hchildren := Assembly.feed_children h.laid.ordered hfeed houter
    rcases hchildren.text_cases hn hspan with ⟨old, hold, hn⟩ | ⟨around, content, henclosing, rfl⟩
    · exact h.apart_step htimeline hapart hold hn hspan hc hparent hb
    · exact .inr (h.precedes_text htimeline henclosing hspan hc hparent hb)

theorem Arranged.apart_run (h : Arranged tags last a) (htimeline : Event.Timeline last events)
    (hapart : a.Apart) (hrun : events.foldlM (Assembly.feed options size) a = .ok b) :
    b.Apart := by
  induction events generalizing a tags last with
  | nil =>
      cases hrun
      exact hapart
  | cons event events ih =>
      rcases foldlM_cons_eq_ok.1 hrun with ⟨next, hnext, hrest⟩
      exact ih (h.feed htimeline hnext) htimeline.tail (h.apart_feed htimeline hapart hnext) hrest

end Apart

end Assembly

/-! ## The whole template -/

namespace Template

/-- What the chain of the element `e` of a template has, where `id` is the number of `e`. -/
structure ChainOf (t : Template) (id : ElementId) (e : Element) : Prop where
  /-- There is a chain exactly where there is a condition. -/
  ne_nil_iff : e.directives.branches ≠ [] ↔ e.directives.condition.isSome
  /-- It starts with the element itself. -/
  head : ∀ condition, e.directives.condition = some condition →
    e.directives.branches.head? = some ⟨some condition, id⟩
  /-- The further branches are elements that are marked as such. -/
  branch : ∀ b ∈ e.directives.branches.tail, ∃ branch, t.elements[b.block]? = some branch ∧
    branch.directives.condition = none ∧
    (branch.directives.isElse ∨ branch.directives.elseCondition.isSome) ∧
    branch.directives.elseCondition = b.condition
  increasing : (e.directives.branches.map (·.block)).Pairwise (· < ·)
  /-- A further branch is neither a child nor a scoped slot. -/
  not_inner : ∀ b ∈ e.directives.branches.tail, ∀ {j : ElementId} {other : Element},
    t.elements[j]? = some other →
    b.block ∉ other.childIds ∧ b.block ∉ other.directives.scopedSlots.map (·.2)
  /-- A text of the parent is in front of the element or behind the branch. -/
  text : ∀ b ∈ e.directives.branches.tail, ∀ {p : ElementId} {outer branch : Element},
    e.parent = some p → t.elements[p]? = some outer → t.elements[b.block]? = some branch →
    ∀ n ∈ outer.children.toList, ∀ span, n.textSpan? = some span →
      (span.start < e.span.start ∧ span.stop ≤ e.span.start) ∨ branch.span.stop ≤ span.start

end Template

variable {options : Options} {source : String} {parsed : Parsed} {id : ElementId} {e : Element}

namespace Assembly

variable {b : Assembly} {size : Nat} {events : List Event}

/-- A further branch is marked as one, and has no condition of its own. -/
theorem exists_branch_run {branch : Branch} (hrun : events.foldlM (feed options size) {} = .ok b)
    (he : b.template.elements[id]? = some e) (hbranch : branch ∈ e.directives.branches.tail) :
    ∃ x, b.template.elements[branch.block]? = some x ∧ x.directives.condition = none ∧
      x.directives.isBranch ∧ x.directives.elseCondition = branch.condition := by
  have hnet := Template.net_of_getElem? he
  rcases (chain_run hrun hnet).mem_tail_iff.1 hbranch with ⟨hmem, hne⟩
  rcases (sorted_run hrun hnet).branch branch hmem with hself | ⟨c, hc, hmarked, hcondition⟩
  · exact absurd hself hne
  · have hnone := (chain_run hrun hc).mark hmarked
    rcases Template.exists_element_of_net hc with ⟨x, hx, rfl⟩
    exact ⟨x, hx, hnone, hmarked, hcondition⟩

/-- What is marked as a branch is neither a child nor a scoped slot. -/
theorem not_inner_run {j : ElementId} {other : Element}
    (hrun : events.foldlM (feed options size) {} = .ok b)
    (he : b.template.elements[id]? = some e) (hbranch : e.directives.isBranch)
    (hother : b.template.elements[j]? = some other) :
    id ∉ other.childIds ∧ id ∉ other.directives.scopedSlots.map (·.2) := by
  have hsorted := sorted_run hrun (Template.net_of_getElem? hother)
  have hnet := Template.net_of_getElem? he
  constructor
  · intro hmem
    rcases hsorted.child id hmem with ⟨x, hx, hnot, _⟩
    obtain rfl := Option.some.inj (hnet.symm.trans hx)
    exact absurd (hbranch.symm.trans hnot) (by simp)
  · intro hmem
    rcases List.mem_map.1 hmem with ⟨entry, hentry, rfl⟩
    rcases hsorted.slot entry hentry with ⟨x, hx, hnot, _⟩
    obtain rfl := Option.some.inj (hnet.symm.trans hx)
    exact absurd (hbranch.symm.trans hnot) (by simp)

theorem apart_empty : Apart {} := by
  intro p head outer n span c branch houter
  simp at houter

end Assembly

/-- Every chain of a parsed template is in order. -/
theorem parse_chains (h : parse options source = .ok parsed)
    (he : parsed.template.elements[id]? = some e) : parsed.template.ChainOf id e := by
  rcases parse_eq_ok h with ⟨a, hrun, htemplate, _⟩
  rw [htemplate] at he ⊢
  have hnet := Template.net_of_getElem? he
  have hchain := Assembly.chain_run hrun hnet
  constructor
  · rcases hchain.start with ⟨hnone, hnil⟩ | ⟨condition, rest, hsome, hbranches⟩
    · have hnone : e.directives.condition = none := hnone
      have hnil : e.directives.branches = [] := hnil
      simp [hnone, hnil]
    · have hsome : e.directives.condition = some condition := hsome
      have hbranches : e.directives.branches = _ := hbranches
      simp [hsome, hbranches]
  · intro condition hcondition
    rcases hchain.start with ⟨hnone, _⟩ | ⟨condition', rest, hsome, hbranches⟩
    · exact absurd (hcondition.symm.trans hnone) (by simp)
    · obtain rfl := Option.some.inj (hcondition.symm.trans hsome)
      have hbranches : e.directives.branches = _ := hbranches
      rw [hbranches]
      rfl
  · intro b hb
    rcases Assembly.exists_branch_run hrun he hb with ⟨branch, hget, hnone, hmarked, hcondition⟩
    exact ⟨branch, hget, hnone, by simpa [Directives.isBranch] using hmarked, hcondition⟩
  · exact hchain.increasing
  · intro b hb j other hother
    rcases Assembly.exists_branch_run hrun he hb with ⟨branch, hget, _, hmarked, _⟩
    exact Assembly.not_inner_run hrun hget hmarked hother
  · intro b hb p outer branch hparent houter hbranch n hn span hspan
    have hapart : a.Apart :=
      Assembly.arranged_empty.apart_run (timeline_scan source) Assembly.apart_empty hrun
    have hspanOf : ∀ {j : ElementId} {x : Element}, a.template.elements[j]? = some x →
        a.outline.spanOf? (.element j) = some x.span := by
      intro j x hx
      simp [Assembly.spanOf?_outline, Template.spanOf?, hx]
    -- At the end all spans are final, so the order of the nodes is that of their spans.
    rcases hapart houter hn hspan hnet hparent (List.mem_of_mem_tail hb) with hbefore | hbehind
    · exact .inl (hbefore.2 _ _ (Outline.spanOf?_of_textSpan? hspan) (hspanOf he))
    · exact .inr (hbehind.2 _ _ (hspanOf hbranch) (Outline.spanOf?_of_textSpan? hspan)).2

/-- A chain of three branches, with text around it and between two of them. -/
theorem parse_chains_three_branches :
    ∃ parsed e,
      parse {} "<p>x<b v-if='a'></b>y<b v-else-if='c'></b><b v-else></b>z</p>" = .ok parsed ∧
      parsed.template.elements[1]? = some e ∧
      e.directives.branches = [⟨some "a", 1⟩, ⟨some "c", 2⟩, ⟨none, 3⟩] ∧
      parsed.template.ChainOf 1 e := by
  have hbranches : ((parse {}
      "<p>x<b v-if='a'></b>y<b v-else-if='c'></b><b v-else></b>z</p>").map fun parsed =>
        parsed.template.elements[1]?.map (·.directives.branches)).toOption =
      some (some [⟨some "a", 1⟩, ⟨some "c", 2⟩, ⟨none, 3⟩]) := by
    decide +kernel
  cases h : parse {} "<p>x<b v-if='a'></b>y<b v-else-if='c'></b><b v-else></b>z</p>" with
  | error error =>
      rw [h] at hbranches
      cases hbranches
  | ok parsed =>
      rw [h] at hbranches
      rcases Option.map_eq_some_iff.1 (Option.some.inj hbranches) with ⟨e, he, hbranches⟩
      exact ⟨parsed, e, rfl, he, hbranches, parse_chains h he⟩

/-- Outside all elements, a chain ends with a plain else. Inside an element, it takes all branches
up to the next child, and a plain else does not end it. -/
theorem parse_chain_branches (h : parse options source = .ok parsed)
    (he : parsed.template.elements[id]? = some e) :
    (e.parent = none → ∀ b ∈ e.directives.branches.dropLast, b.condition.isSome) ∧
    ∀ {p : ElementId} {outer : Element}, e.parent = some p →
      parsed.template.elements[p]? = some outer → e.directives.condition.isSome →
      ∀ j, (∃ b ∈ e.directives.branches.tail, b.block = j) ↔
        ∃ branch, parsed.template.elements[j]? = some branch ∧ branch.parent = some p ∧
          branch.directives.isBranch ∧ InFront outer.childIds id j := by
  rcases parse_eq_ok h with ⟨a, hrun, htemplate, _⟩
  rw [htemplate] at he ⊢
  have hnet := Template.net_of_getElem? he
  have hchain := Assembly.chain_run hrun hnet
  refine ⟨hchain.ended, ?_⟩
  intro p outer hparent houter hcondition j
  have hgathers := Assembly.gathers_run hrun (Template.net_of_getElem? houter)
  constructor
  · rintro ⟨b, hb, rfl⟩
    rcases hchain.mem_tail_iff.1 hb with ⟨hmem, hne⟩
    rcases Assembly.exists_branch_run hrun he hb with ⟨branch, hget, _, hmarked, _⟩
    have htree := (Assembly.treelike_empty.run hrun).isTree
    rcases htree.branch_parent he b hmem hne with ⟨branch', hget', hparent'⟩
    obtain rfl := Option.some.inj (hget.symm.trans hget')
    refine ⟨branch, hget, hparent'.trans hparent, hmarked, ?_⟩
    exact (hgathers.inFront hnet hparent b hmem).resolve_left hne
  · rintro ⟨branch, hget, hparent', hmarked, hfront⟩
    have hnet' := Template.net_of_getElem? hget
    rcases hgathers.taken hfront hnet hcondition hnet' hparent' hmarked with ⟨b, hb, rfl⟩
    exact ⟨b, hchain.mem_tail_iff.2 ⟨hb, Nat.ne_of_gt hfront.2.1⟩, rfl⟩

/-- Inside an element, a branch joins a chain behind its plain else, and nothing is reported. -/
theorem parse_second_else :
    ∃ parsed outer e,
      parse {} "<div><p v-if='a'></p><p v-else></p><p v-else></p></div>" = .ok parsed ∧
      parsed.warnings = [] ∧ parsed.template.elements[0]? = some outer ∧
      parsed.template.elements[1]? = some e ∧ e.parent = some 0 ∧
      e.directives.condition = some "a" ∧
      e.directives.branches = [⟨some "a", 1⟩, ⟨none, 2⟩, ⟨none, 3⟩] := by
  have hread : ((parse {} "<div><p v-if='a'></p><p v-else></p><p v-else></p></div>").map
      fun parsed => (parsed.warnings, parsed.template.net[0]?.map (·.children),
        parsed.template.net[1]?)).toOption = some ([], some [1], some
      { role := ⟨some 0, some "a", none, false, false, Element.defaultSlot⟩
        children := []
        slots := []
        branches := [⟨some "a", 1⟩, ⟨none, 2⟩, ⟨none, 3⟩] }) := by
    decide +kernel
  cases h : parse {} "<div><p v-if='a'></p><p v-else></p><p v-else></p></div>" with
  | error error =>
      rw [h] at hread
      cases hread
  | ok parsed =>
      rw [h] at hread
      obtain ⟨hwarnings, hread⟩ := Prod.mk.inj (Option.some.inj hread)
      obtain ⟨houter, he⟩ := Prod.mk.inj hread
      rcases Option.map_eq_some_iff.1 houter with ⟨_, houter, _⟩
      rcases Template.exists_element_of_net houter with ⟨outer, houter, _⟩
      rcases Template.exists_element_of_net he with ⟨e, he, hbonds⟩
      exact ⟨parsed, outer, e, rfl, hwarnings, houter, he, congrArg (·.role.parent) hbonds,
        congrArg (·.role.condition) hbonds, congrArg (·.branches) hbonds⟩

theorem parse_chain_branches_second_else :
    ∃ parsed outer e,
      parse {} "<div><p v-if='a'></p><p v-else></p><p v-else></p></div>" = .ok parsed ∧
      parsed.template.elements[0]? = some outer ∧ parsed.template.elements[1]? = some e ∧
      ∀ j, (∃ b ∈ e.directives.branches.tail, b.block = j) ↔
        ∃ branch, parsed.template.elements[j]? = some branch ∧ branch.parent = some 0 ∧
          branch.directives.isBranch ∧ InFront outer.childIds 1 j := by
  rcases parse_second_else with ⟨parsed, outer, e, h, _, houter, he, hparent, hcondition, _⟩
  have hsome : e.directives.condition.isSome := by simp [hcondition]
  exact ⟨parsed, outer, e, h, houter, he, (parse_chain_branches h he).2 hparent houter hsome⟩

/-- Not every chain ends with its plain else. -/
theorem parse_chain_past_else :
    ¬∀ (source : String) (parsed : Parsed) (id : ElementId) (e : Element),
      parse {} source = .ok parsed → parsed.template.elements[id]? = some e →
      ∀ b ∈ e.directives.branches.dropLast, b.condition.isSome := by
  intro hall
  rcases parse_second_else with ⟨parsed, _, e, h, _, _, he, _, _, hbranches⟩
  have hsome := hall _ parsed 1 e h he ⟨none, 2⟩ (by simp [hbranches])
  cases hsome

end TemplateMarkup
