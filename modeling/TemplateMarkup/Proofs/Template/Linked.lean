import Mathlib.Data.List.Nodup
import Mathlib.Data.List.TakeWhile
import TemplateMarkup.Proofs.Template.Assoc
import TemplateMarkup.Proofs.Template.Outline
import TemplateMarkup.Template.Walk

/-!
# Links

An element leads down to its children and its scoped slots, and sideways to the further branches
of its chain. While a template is assembled, no element is ever reached in two ways:

* `Template.Linked` — the invariant: targets are reached once, and know where they stand,
* `Template.Linked.congr`, `Template.Linked.link` — what keeps it,
* `Template.Linked.withChild`, `withSlot`, `withBranch` — the three ways of adding a link.
-/

namespace TemplateMarkup

/-! ## Where elements lead -/

namespace Element

/-- The elements inside an element: its children and its scoped slots. -/
def inner (e : Element) : List ElementId :=
  e.childIds ++ e.directives.scopedSlots.map (·.2)

/-- The further branches of the chain of the element `id`. -/
def followers (id : ElementId) (e : Element) : List ElementId :=
  (e.directives.branches.map (·.block)).filter (· ≠ id)

end Element

namespace Template

variable {t t' : Template} {id i j : ElementId} {f : Element → Element}

/-- The parent of an element, `none` where there is no element. -/
def parentAt (t : Template) (id : ElementId) : Option (Option ElementId) :=
  t.elements[id]?.map (·.parent)

def innerAt (t : Template) (id : ElementId) : List ElementId :=
  (t.elements[id]?.map Element.inner).getD []

def followersAt (t : Template) (id : ElementId) : List ElementId :=
  (t.elements[id]?.map (Element.followers id)).getD []

/-- All links of an element, but for the entry of its chain that is the element itself. -/
def targetsAt (t : Template) (id : ElementId) : List ElementId :=
  t.innerAt id ++ t.followersAt id

/-- The links of all elements together. -/
def targets (t : Template) : List ElementId :=
  (List.range t.elements.size).flatMap t.targetsAt

/-- What the links of a template have in common at every stage of its assembly. -/
structure Linked (t : Template) : Prop where
  pos : ∀ {i j : ElementId}, j ∈ t.targetsAt i → 0 < j
  nodup : ∀ i : ElementId, (t.targetsAt i).Nodup
  unique : ∀ {i i' j : ElementId}, j ∈ t.targetsAt i → j ∈ t.targetsAt i' → i = i'
  inner_parent : ∀ {i j : ElementId}, j ∈ t.innerAt i → t.parentAt j = some (some i)
  follower_parent : ∀ {i j : ElementId}, j ∈ t.followersAt i → t.parentAt j = t.parentAt i

theorem parentAt_eq_none_iff : t.parentAt id = none ↔ t.elements.size ≤ id := by
  simp [parentAt]

theorem parentAt_of_getElem? {e : Element} (h : t.elements[id]? = some e) :
    t.parentAt id = some e.parent := by
  simp [parentAt, h]

theorem parentAt_eq (t : Template) (id : ElementId) :
    t.parentAt id = t.headers[id]?.map (·.parent) := by
  rw [getElem?_headers, Option.map_map]
  rfl

theorem innerAt_of_getElem? {e : Element} (h : t.elements[id]? = some e) :
    t.innerAt id = e.inner := by
  simp [innerAt, h]

theorem followersAt_of_getElem? {e : Element} (h : t.elements[id]? = some e) :
    t.followersAt id = e.followers id := by
  simp [followersAt, h]

/-- Only elements that are there have links. -/
theorem exists_parentAt (hj : j ∈ t.targetsAt i) : ∃ parent, t.parentAt i = some parent := by
  cases he : t.elements[i]? with
  | none => simp [targetsAt, innerAt, followersAt, he] at hj
  | some e => exact ⟨e.parent, parentAt_of_getElem? he⟩

/-- Links lead to elements that are there. -/
theorem Linked.lt_size (h : t.Linked) (hj : j ∈ t.targetsAt i) : j < t.elements.size := by
  have hsome : t.parentAt j ≠ none := by
    rcases List.mem_append.1 hj with hinner | hfollower
    · simp [h.inner_parent hinner]
    · rcases exists_parentAt hj with ⟨parent, hparent⟩
      simp [h.follower_parent hfollower, hparent]
  exact Nat.lt_of_not_le fun hle => hsome (parentAt_eq_none_iff.2 hle)

theorem Linked.size_not_mem (h : t.Linked) (i : ElementId) :
    t.elements.size ∉ t.targetsAt i := by
  intro hmem
  exact Nat.lt_irrefl _ (h.lt_size hmem)

/-! ## Changes that keep the links -/

/-- Followers keep their place while elements keep their parents. -/
theorem Linked.follower_parent_of_le (h : t.Linked)
    (hparent : ∀ {j parent}, t.parentAt j = some parent → t'.parentAt j = some parent)
    (hj : j ∈ t.followersAt i) : t'.parentAt j = t'.parentAt i := by
  rcases exists_parentAt (List.mem_append_right _ hj) with ⟨parent, hi⟩
  rw [hparent hi]
  exact hparent ((h.follower_parent hj).trans hi)

/-- The invariant is about links and parents only. -/
theorem Linked.congr (h : t.Linked) (hinner : ∀ i, t'.innerAt i = t.innerAt i)
    (hfollowers : ∀ i, t'.followersAt i = t.followersAt i)
    (hparent : ∀ {j parent}, t.parentAt j = some parent → t'.parentAt j = some parent) :
    t'.Linked := by
  have htargets : ∀ i, t'.targetsAt i = t.targetsAt i := by
    intro i
    simp [targetsAt, hinner, hfollowers]
  constructor
  · intro i j hj
    rw [htargets] at hj
    exact h.pos hj
  · intro i
    rw [htargets]
    exact h.nodup i
  · intro i i' j hi hi'
    rw [htargets] at hi hi'
    exact h.unique hi hi'
  · intro i j hj
    rw [hinner] at hj
    exact hparent (h.inner_parent hj)
  · intro i j hj
    rw [hfollowers] at hj
    exact h.follower_parent_of_le hparent hj

/-- One element gets a new link, to an element that had none. -/
theorem Linked.link {p : ElementId} (h : t.Linked) (hpos : 0 < id)
    (hfresh : ∀ i, id ∉ t.targetsAt i)
    (hparent : ∀ {j parent}, t.parentAt j = some parent → t'.parentAt j = some parent)
    (hother : ∀ i, i ≠ p → t'.innerAt i = t.innerAt i ∧ t'.followersAt i = t.followersAt i)
    (hnodup : (t'.targetsAt p).Nodup)
    (hinner : ∀ j ∈ t'.innerAt p,
      j ∈ t.innerAt p ∨ (j = id ∧ t.parentAt id = some (some p)))
    (hfollowers : ∀ j ∈ t'.followersAt p,
      j ∈ t.followersAt p ∨ (j = id ∧ ∃ q, t.parentAt id = some q ∧ t.parentAt p = some q)) :
    t'.Linked := by
  -- What `p` leads to now is what it led to before, and perhaps the new element.
  have hnew : ∀ j ∈ t'.targetsAt p, j ∈ t.targetsAt p ∨ j = id := by
    intro j hj
    rcases List.mem_append.1 hj with hj | hj
    · rcases hinner j hj with hold | ⟨rfl, _⟩
      · exact .inl (List.mem_append_left _ hold)
      · exact .inr rfl
    · rcases hfollowers j hj with hold | ⟨rfl, _⟩
      · exact .inl (List.mem_append_right _ hold)
      · exact .inr rfl
  have hsame : ∀ i, i ≠ p → t'.targetsAt i = t.targetsAt i := by
    intro i hi
    rcases hother i hi with ⟨h1, h2⟩
    simp [targetsAt, h1, h2]
  have hmem : ∀ {i j}, j ∈ t'.targetsAt i → j ∈ t.targetsAt i ∨ (j = id ∧ i = p) := by
    intro i j hj
    by_cases hi : i = p
    · subst hi
      rcases hnew j hj with hold | hid
      · exact .inl hold
      · exact .inr ⟨hid, rfl⟩
    · rw [hsame i hi] at hj
      exact .inl hj
  -- Each fact holds of the old links as before, and of the new one by what is known of `id`.
  constructor
  · intro i j hj
    rcases hmem hj with hold | ⟨rfl, _⟩
    · exact h.pos hold
    · exact hpos
  · intro i
    by_cases hi : i = p
    · rw [hi]
      exact hnodup
    · rw [hsame i hi]
      exact h.nodup i
  · intro i i' j hi hi'
    -- A link to `id` is new, and there is only one new link.
    rcases hmem hi with hold | ⟨rfl, rfl⟩
    · rcases hmem hi' with hold' | ⟨rfl, rfl⟩
      · exact h.unique hold hold'
      · exact absurd hold (hfresh i)
    · rcases hmem hi' with hold' | ⟨_, rfl⟩
      · exact absurd hold' (hfresh i')
      · rfl
  · intro i j hj
    by_cases hi : i = p
    · subst hi
      rcases hinner j hj with hold | ⟨rfl, hid⟩
      · exact hparent (h.inner_parent hold)
      · exact hparent hid
    · rw [(hother i hi).1] at hj
      exact hparent (h.inner_parent hj)
  · intro i j hj
    by_cases hi : i = p
    · subst hi
      rcases hfollowers j hj with hold | ⟨rfl, q, hid, hp⟩
      · exact h.follower_parent_of_le hparent hold
      · rw [hparent hid, hparent hp]
    · rw [(hother i hi).2] at hj
      exact h.follower_parent_of_le hparent hj

/-! ## Changing an element -/

theorem innerAt_modify_ne {p : ElementId} (hi : i ≠ p) (t : Template) (f : Element → Element) :
    (t.modify p f).innerAt i = t.innerAt i := by
  simp [innerAt, getElem?_modify, Ne.symm hi]

theorem followersAt_modify_ne {p : ElementId} (hi : i ≠ p) (t : Template)
    (f : Element → Element) : (t.modify p f).followersAt i = t.followersAt i := by
  simp [followersAt, getElem?_modify, Ne.symm hi]

/-- What a change of an element leaves alone is seen as before. -/
theorem map_getElem?_modify {β : Type} {view : Element → β} (hf : ∀ e, view (f e) = view e)
    (t : Template) (p i : ElementId) :
    (t.modify p f).elements[i]?.map view = t.elements[i]?.map view := by
  rw [getElem?_modify]
  cases t.elements[i]? with
  | none => simp
  | some e => by_cases hi : p = i <;> simp [hi, hf]

theorem parentAt_modify (hf : ∀ e, (f e).parent = e.parent) (t : Template) (p j : ElementId) :
    (t.modify p f).parentAt j = t.parentAt j :=
  map_getElem?_modify hf t p j

theorem innerAt_modify (hf : ∀ e, (f e).inner = e.inner) (t : Template) (p i : ElementId) :
    (t.modify p f).innerAt i = t.innerAt i := by
  rw [innerAt, map_getElem?_modify hf, innerAt]

theorem followersAt_modify (hf : ∀ e id, (f e).followers id = e.followers id) (t : Template)
    (p i : ElementId) : (t.modify p f).followersAt i = t.followersAt i := by
  rw [followersAt, map_getElem?_modify (fun e => hf e i), followersAt]

/-- A change that touches neither links nor parent. -/
theorem Linked.modify_same (h : t.Linked) (p : ElementId)
    (hparent : ∀ e, (f e).parent = e.parent) (hinner : ∀ e, (f e).inner = e.inner)
    (hfollowers : ∀ e id, (f e).followers id = e.followers id) : (t.modify p f).Linked := by
  refine h.congr (innerAt_modify hinner t p) (followersAt_modify hfollowers t p) ?_
  intro j parent hj
  rw [parentAt_modify hparent]
  exact hj

/-- A change that adds a link to the new element `id`. -/
theorem Linked.modify_link {p : ElementId} {e : Element} (h : t.Linked)
    (he : t.elements[p]? = some e) (hpos : 0 < id) (hfresh : ∀ i, id ∉ t.targetsAt i)
    (hparent : ∀ e, (f e).parent = e.parent)
    (hnodup : (id :: (e.inner ++ e.followers p)).Nodup →
      ((f e).inner ++ (f e).followers p).Nodup)
    (hinner : ∀ j ∈ (f e).inner, j ∈ e.inner ∨ (j = id ∧ t.parentAt id = some (some p)))
    (hfollowers : ∀ j ∈ (f e).followers p,
      j ∈ e.followers p ∨ (j = id ∧ t.parentAt id = some e.parent)) :
    (t.modify p f).Linked := by
  have he' : (t.modify p f).elements[p]? = some (f e) := by
    simp [getElem?_modify, he]
  have hold : t.targetsAt p = e.inner ++ e.followers p := by
    simp [targetsAt, innerAt_of_getElem? he, followersAt_of_getElem? he]
  refine h.link (p := p) hpos hfresh ?_ ?_ ?_ ?_ ?_
  · intro j parent hj
    rw [parentAt_modify hparent]
    exact hj
  · intro i hi
    exact ⟨innerAt_modify_ne hi t f, followersAt_modify_ne hi t f⟩
  · -- The new element is none of those that `p` led to.
    have hcons : (id :: (e.inner ++ e.followers p)).Nodup := by
      rw [← hold]
      exact List.nodup_cons.2 ⟨hfresh p, h.nodup p⟩
    simpa [targetsAt, innerAt_of_getElem? he', followersAt_of_getElem? he'] using hnodup hcons
  · intro j hj
    rw [innerAt_of_getElem? he'] at hj
    rw [innerAt_of_getElem? he]
    exact hinner j hj
  · intro j hj
    rw [followersAt_of_getElem? he'] at hj
    rw [followersAt_of_getElem? he]
    rcases hfollowers j hj with hold | ⟨hid, hparentAt⟩
    · exact .inl hold
    · exact .inr ⟨hid, e.parent, hparentAt, parentAt_of_getElem? he⟩

/-- A new element that leads nowhere. -/
theorem targetsAt_push {e : Element} (hinner : e.inner = [])
    (hfollowers : e.followers t.elements.size = []) (i : ElementId) :
    (t.push e).innerAt i = t.innerAt i ∧ (t.push e).followersAt i = t.followersAt i := by
  by_cases hi : i = t.elements.size
  · subst hi
    simp [innerAt, followersAt, push, hinner, hfollowers]
  · simp [innerAt, followersAt, push, Array.getElem?_push, hi]

theorem parentAt_push_of_some {e : Element} {parent : Option ElementId}
    (h : t.parentAt j = some parent) : (t.push e).parentAt j = some parent := by
  have hj : j ≠ t.elements.size := by
    intro hj
    have hnone := parentAt_eq_none_iff.2 (Nat.le_of_eq hj.symm)
    rw [h] at hnone
    cases hnone
  simpa [parentAt, push, Array.getElem?_push, hj] using h

theorem Linked.push {e : Element} (h : t.Linked) (hinner : e.inner = [])
    (hfollowers : e.followers t.elements.size = []) : (t.push e).Linked :=
  h.congr (fun i => (targetsAt_push hinner hfollowers i).1)
    (fun i => (targetsAt_push hinner hfollowers i).2) parentAt_push_of_some

end Template

/-! ## What the operations of an assembly do to links -/

namespace Node

/-- The element a child is. -/
def element? : Node → Option ElementId
  | element id => some id
  | _ => none

theorem isText_of_isSpace {n : Node} (h : n.isSpace) : n.isText := by
  cases n with
  | element id => simp [isSpace, literal?] at h
  | expression parsed text span => rfl
  | text content span => rfl

end Node

namespace Element

variable {e e' : Element}

theorem inner_eq_of (hchildren : e'.childIds = e.childIds)
    (hdirectives : e'.directives = e.directives) : e'.inner = e.inner := by
  simp [inner, hchildren, hdirectives]

theorem followers_eq_of (hdirectives : e'.directives = e.directives) (id : ElementId) :
    e'.followers id = e.followers id := by
  simp [followers, hdirectives]

theorem childIds_eq (e : Element) : e.childIds = e.children.toList.filterMap Node.element? :=
  rfl

/-- Text at the end of the children can be taken off. -/
theorem childIds_eq_of_append (dropped : List Node)
    (h : e.children.toList = e'.children.toList ++ dropped) (htext : ∀ n ∈ dropped, n.isText) :
    e'.childIds = e.childIds := by
  have hnone : dropped.filterMap Node.element? = [] := by
    rw [List.filterMap_eq_nil_iff]
    intro n hn
    cases n with
    | element id => exact absurd (htext _ hn) (by simp [Node.isText])
    | expression parsed text span => rfl
    | text content span => rfl
  rw [childIds_eq, childIds_eq, h, List.filterMap_append, hnone, List.append_nil]

end Element

namespace Assembly

variable {a b : Assembly} {id : ElementId} {e : Element}

theorem childIds_withoutText (e : Element) : (withoutText e).childIds = e.childIds := by
  refine Element.childIds_eq_of_append _ (children_eq_withoutText_append e) ?_
  intro n hn
  exact List.mem_takeWhile_imp (List.mem_reverse.1 hn)

theorem inner_withoutText (e : Element) : (withoutText e).inner = e.inner :=
  Element.inner_eq_of (childIds_withoutText e) rfl

theorem childIds_closedAt (span : Span) (e : Element) :
    (closedAt span e).childIds = e.childIds := by
  rcases children_eq_closedAt_append span e with ⟨rest, hrest, hspace⟩
  exact Element.childIds_eq_of_append rest hrest fun n hn => Node.isText_of_isSpace (hspace n hn)

theorem childIds_addText (options : Options) (text : String) (span : Span) (e : Element) :
    (addText options text span e).childIds = e.childIds := by
  unfold addText
  split
  · split
    · rfl
    · simp [Element.childIds]
  · split <;> simp [Element.childIds]

theorem directives_addText (options : Options) (text : String) (span : Span) (e : Element) :
    (addText options text span e).directives = e.directives := by
  unfold addText
  split
  · split <;> rfl
  · split <;> rfl

theorem inner_withChild (id : ElementId) (e : Element) :
    (withChild (.element id) e).inner =
      e.childIds ++ id :: e.directives.scopedSlots.map (·.2) := by
  simp [Element.inner, withChild, Element.childIds]

theorem followers_withBranch (condition : Option String) (id p : ElementId) (e : Element) :
    (withBranch ⟨condition, id⟩ e).followers p = e.followers p ++ [id].filter (· ≠ p) := by
  simp [Element.followers, withBranch, Element.update]

end Assembly

/-! ## Adding a link -/

namespace Template

open Assembly

variable {t : Template} {id p : ElementId}

theorem Linked.withoutText (h : t.Linked) (p : ElementId) :
    (t.modify p Assembly.withoutText).Linked :=
  h.modify_same p (fun _ => rfl) inner_withoutText (fun _ _ => rfl)

theorem Linked.closedAt (h : t.Linked) (p : ElementId) (span : Span) :
    (t.modify p (Assembly.closedAt span)).Linked := by
  refine h.modify_same p (fun _ => rfl) (fun e => ?_) (fun _ _ => rfl)
  exact Element.inner_eq_of (childIds_closedAt span e) rfl

theorem Linked.addText (h : t.Linked) (p : ElementId) (options : Options) (text : String)
    (span : Span) : (t.modify p (Assembly.addText options text span)).Linked := by
  have hdirectives := directives_addText options text span
  refine h.modify_same p (fun e => ?_) (fun e => ?_) (fun e id => ?_)
  · exact congrArg Header.parent (header_addText options text span e)
  · exact Element.inner_eq_of (childIds_addText options text span e) (hdirectives e)
  · exact Element.followers_eq_of (hdirectives e) id

section Fresh

variable (h : t.Linked) (hpos : 0 < id) (hfresh : ∀ i, id ∉ t.targetsAt i)

include h hpos hfresh

theorem Linked.withChild (hparent : t.parentAt id = some (some p)) :
    (t.modify p (Assembly.withChild (.element id))).Linked := by
  cases he : t.elements[p]? with
  | none =>
      rw [modify_of_none he]
      exact h
  | some e =>
      have hinner := inner_withChild id e
      refine h.modify_link he hpos hfresh (fun _ => rfl) ?_ ?_ ?_
      · -- The new child stands between the children and the scoped slots.
        intro hnodup
        have hperm : ((Assembly.withChild (.element id) e).inner ++ e.followers p).Perm
            (id :: (e.inner ++ e.followers p)) := by
          rw [hinner, Element.inner, List.append_assoc, List.cons_append, List.append_assoc]
          exact List.perm_middle
        exact hperm.nodup_iff.2 hnodup
      · intro j hj
        rw [hinner] at hj
        rcases List.mem_append.1 hj with hchild | hslot
        · exact .inl (List.mem_append_left _ hchild)
        · rcases List.mem_cons.1 hslot with hid | hslot
          · exact .inr ⟨hid, hparent⟩
          · exact .inl (List.mem_append_right _ hslot)
      · intro j hj
        exact .inl hj

theorem Linked.withSlot (target : String) (hparent : t.parentAt id = some (some p)) :
    (t.modify p (Assembly.withSlot target id)).Linked := by
  cases he : t.elements[p]? with
  | none =>
      rw [modify_of_none he]
      exact h
  | some e =>
      -- The new slot stands in the place of an older one, if there was one for its target.
      rcases Assoc.map_snd_set target id e.directives.scopedSlots with
        ⟨front, old, back, hslots, hset⟩
      have hinner : (Assembly.withSlot target id e).inner =
          e.childIds ++ (front ++ id :: back) := by
        rw [← hset]
        rfl
      have hold : e.inner = e.childIds ++ (front ++ old ++ back) := by
        rw [← hslots]
        rfl
      refine h.modify_link he hpos hfresh (fun _ => rfl) ?_ ?_ ?_
      · intro hnodup
        have hperm : ((Assembly.withSlot target id e).inner ++ e.followers p).Perm
            (id :: (e.childIds ++ (front ++ back) ++ e.followers p)) := by
          have hmiddle : (e.childIds ++ front ++ id :: (back ++ e.followers p)).Perm
              (id :: (e.childIds ++ front ++ (back ++ e.followers p))) :=
            List.perm_middle
          rw [hinner]
          simpa using hmiddle
        -- An older slot for the same target is gone.
        have hsub : (id :: (e.childIds ++ (front ++ back) ++ e.followers p)).Sublist
            (id :: (e.inner ++ e.followers p)) := by
          rw [hold]
          refine List.Sublist.cons_cons _ (List.Sublist.append_right ?_ _)
          refine List.Sublist.append_left ?_ _
          exact List.Sublist.append_right (List.sublist_append_left front old) back
        exact hperm.nodup_iff.2 (hnodup.sublist hsub)
      · intro j hj
        rw [hinner] at hj
        rw [hold]
        simp only [List.mem_append, List.mem_cons] at hj ⊢
        rcases hj with hchild | hfront | hid | hback
        · exact .inl (.inl hchild)
        · exact .inl (.inr (.inl (.inl hfront)))
        · exact .inr ⟨hid, hparent⟩
        · exact .inl (.inr (.inr hback))
      · intro j hj
        exact .inl hj

theorem Linked.withBranch (condition : Option String)
    (hparent : t.parentAt id = t.parentAt p) :
    (t.modify p (Assembly.withBranch ⟨condition, id⟩)).Linked := by
  cases he : t.elements[p]? with
  | none =>
      rw [modify_of_none he]
      exact h
  | some e =>
      have hfollowers := followers_withBranch condition id p e
      refine h.modify_link he hpos hfresh (fun _ => rfl) ?_ ?_ ?_
      · intro hnodup
        -- The filter would drop the new branch if it were `p` itself.
        have hsub : ((Assembly.withBranch ⟨condition, id⟩ e).inner ++
            (Assembly.withBranch ⟨condition, id⟩ e).followers p).Sublist
              (e.inner ++ e.followers p ++ [id]) := by
          rw [hfollowers, ← List.append_assoc]
          exact List.Sublist.append_left List.filter_sublist _
        have hperm : (e.inner ++ e.followers p ++ [id]).Perm
            (id :: (e.inner ++ e.followers p)) :=
          List.perm_append_singleton _ _
        exact (hperm.nodup_iff.2 hnodup).sublist hsub
      · intro j hj
        exact .inl hj
      · intro j hj
        rw [hfollowers] at hj
        rcases List.mem_append.1 hj with hold | hnew
        · exact .inl hold
        · have hid := List.mem_singleton.1 (List.mem_of_mem_filter hnew)
          exact .inr ⟨hid, hparent.trans (parentAt_of_getElem? he)⟩

end Fresh

end Template

end TemplateMarkup
