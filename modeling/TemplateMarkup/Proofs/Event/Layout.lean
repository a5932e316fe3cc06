import TemplateMarkup.Proofs.Event.Outline

/-!
# Where the elements of an outline stand

The spans of events follow each other. From that alone, the spans of the elements in an outline are
nested like the elements themselves:

* `Event.Timeline last events` — the spans of `events` follow each other, and `last`,
* `Outline.Above parents i j` — the element `i` is around the element `j`,
* `Outline.Laid tags last o` — the spans of an outline are laid out like its elements,
* `Outline.Laid.step` — every event of a timeline keeps them so.
-/

namespace TemplateMarkup

/-! ## Timelines -/

namespace Event

/-- The start tags of a list of events, in order. -/
def startTags (events : List Event) : List StartTag :=
  events.filterMap fun
    | .opened tag _ => some tag
    | _ => none

theorem startTags_append (events more : List Event) :
    startTags (events ++ more) = startTags events ++ startTags more :=
  List.filterMap_append

/-- The span of a start tag or of a text is behind the one before it and not empty. Those of
end tags follow it, or are the same. -/
def Timeline (last : Span) : List Event → Prop
  | [] => True
  | .opened tag _ :: events =>
      last.stop ≤ tag.span.start ∧ tag.span.start < tag.span.stop ∧ Timeline tag.span events
  | .closed _ span :: events =>
      last.start ≤ span.start ∧ last.stop ≤ span.stop ∧ span.start ≤ span.stop ∧
        Timeline span events
  | .text _ span :: events =>
      last.stop ≤ span.start ∧ span.start < span.stop ∧ Timeline span events
  | .warned _ :: events => Timeline last events

/-- The last span of a list of events. -/
def spanAfter (last : Span) : Event → Span
  | .opened tag _ => tag.span
  | .closed _ span => span
  | .text _ span => span
  | .warned _ => last

theorem Timeline.tail {last : Span} {event : Event} {events : List Event}
    (h : Timeline last (event :: events)) : Timeline (spanAfter last event) events := by
  cases event with
  | opened tag unary => exact h.2.2
  | closed name span => exact h.2.2.2
  | text content span => exact h.2.2
  | warned warning => exact h

theorem Timeline.stop_le {last : Span} {event : Event} {events : List Event}
    (h : Timeline last (event :: events)) : last.stop ≤ (spanAfter last event).stop := by
  cases event with
  | opened tag unary => exact Nat.le_trans h.1 (Nat.le_of_lt h.2.1)
  | closed name span => exact h.2.1
  | text content span => exact Nat.le_trans h.1 (Nat.le_of_lt h.2.1)
  | warned warning => exact Nat.le_refl _

theorem Timeline.start_le {last : Span} {event : Event} {events : List Event}
    (h : Timeline last (event :: events)) (hlast : last.start ≤ last.stop) :
    last.start ≤ (spanAfter last event).start ∧
      (spanAfter last event).start ≤ (spanAfter last event).stop := by
  cases event with
  | opened tag unary => exact ⟨Nat.le_trans hlast h.1, Nat.le_of_lt h.2.1⟩
  | closed name span => exact ⟨h.1, h.2.2.1⟩
  | text content span => exact ⟨Nat.le_trans hlast h.1, Nat.le_of_lt h.2.1⟩
  | warned warning => exact ⟨Nat.le_refl _, hlast⟩

/-- No end event of a timeline starts in front of it. -/
theorem Timeline.start_le_closed {last span : Span} {name : String} {events : List Event}
    (h : Timeline last events) (hlast : last.start ≤ last.stop)
    (hmem : .closed name span ∈ events) : last.start ≤ span.start := by
  induction events generalizing last with
  | nil => cases hmem
  | cons first events ih =>
      rcases List.mem_cons.1 hmem with rfl | hmem
      · exact h.1
      · rcases h.start_le hlast with ⟨hle, hnext⟩
        exact Nat.le_trans hle (ih h.tail hnext hmem)

/-- The span of a start tag or of a text. -/
def place? : Event → Option Span
  | .opened tag _ => some tag.span
  | .text _ span => some span
  | _ => none

theorem spanAfter_of_place? {event : Event} {span : Span} (h : event.place? = some span)
    (last : Span) : spanAfter last event = span := by
  cases event with
  | opened tag unary => exact Option.some.inj h
  | closed name span => cases h
  | text content span => exact Option.some.inj h
  | warned warning => cases h

/-- All start tags and texts of a timeline are behind its start. -/
theorem Timeline.le_place {last span : Span} {event : Event} {events : List Event}
    (h : Timeline last events) (hevent : event ∈ events) (hplace : event.place? = some span) :
    last.stop ≤ span.start ∧ span.start < span.stop := by
  induction events generalizing last with
  | nil => cases hevent
  | cons first events ih =>
      rcases List.mem_cons.1 hevent with rfl | hevent
      · cases event with
        | opened tag unary =>
            cases hplace
            exact ⟨h.1, h.2.1⟩
        | closed name span => cases hplace
        | text content span =>
            cases hplace
            exact ⟨h.1, h.2.1⟩
        | warned warning => cases hplace
      · rcases ih h.tail hevent with ⟨hle, hlt⟩
        exact ⟨Nat.le_trans h.stop_le hle, hlt⟩

/-- What follows an event in a timeline is a timeline from there. -/
theorem Timeline.behind {last span : Span} {event : Event} {before after : List Event}
    (h : Timeline last (before ++ event :: after)) (hplace : event.place? = some span) :
    Timeline span after := by
  induction before generalizing last with
  | nil =>
      rw [← spanAfter_of_place? hplace last]
      exact h.tail
  | cons first before ih => exact ih h.tail

/-- Of two start tags or texts of a timeline, the first ends before the second. -/
theorem Timeline.place_le {last span span' : Span} {event event' : Event}
    {before after : List Event} (h : Timeline last (before ++ event' :: after))
    (hevent : event ∈ before) (hplace : event.place? = some span)
    (hplace' : event'.place? = some span') : span.stop ≤ span'.start := by
  rcases List.append_of_mem hevent with ⟨front, back, rfl⟩
  rw [List.append_assoc, List.cons_append] at h
  exact ((h.behind hplace).le_place (by simp) hplace').1

end Event

namespace Outline

open Event

/-! ## Elements around an element -/

/-- The parents of the elements, in order. -/
def parents (o : Outline) : List (Option ElementId) :=
  o.headers.map (·.parent)

@[simp] theorem length_parents (o : Outline) : o.parents.length = o.headers.length :=
  List.length_map _

variable {o : Outline} {tags : List StartTag} {last : Span} {event : Event} {events : List Event}
  {parents : List (Option ElementId)} {id i j : ElementId}

/-- The element `i` is the parent of `j`, or around that parent. -/
inductive Above (parents : List (Option ElementId)) (i : ElementId) : ElementId → Prop where
  | parent {j : ElementId} : parents[j]? = some (some i) → Above parents i j
  | outer {parent j : ElementId} :
      parents[j]? = some (some parent) → Above parents i parent → Above parents i j

theorem Above.append (h : Above parents i j) (more : List (Option ElementId)) :
    Above (parents ++ more) i j := by
  have hleft : ∀ {k : ElementId} {parent : Option ElementId},
      parents[k]? = some parent → (parents ++ more)[k]? = some parent := by
    intro k parent hk
    rw [List.getElem?_append_left (List.getElem?_eq_some_iff.1 hk).1]
    exact hk
  induction h with
  | parent hj => exact .parent (hleft hj)
  | outer hj _ ih => exact .outer (hleft hj) ih

theorem Ordered.parents_lt {parent : ElementId} (h : o.Ordered)
    (hid : o.parents[id]? = some (some parent)) : parent < id := by
  rw [Outline.parents, List.getElem?_map] at hid
  rcases Option.map_eq_some_iff.1 hid with ⟨header, hheader, hparent⟩
  exact h.parent_lt hheader hparent

theorem Above.lt (h : Above o.parents i j) (ho : o.Ordered) : i < j := by
  induction h with
  | parent hj => exact ho.parents_lt hj
  | outer hj _ ih => exact Nat.lt_trans ih (ho.parents_lt hj)

/-- Each element of a stack has the next one as its parent. -/
def Chained (parents : List (Option ElementId)) : List ElementId → Prop
  | [] => True
  | id :: outer => parents[id]? = some outer.head? ∧ Chained parents outer

theorem Chained.append {stack : List ElementId} (h : Chained parents stack)
    (more : List (Option ElementId)) : Chained (parents ++ more) stack := by
  induction stack with
  | nil => trivial
  | cons id outer ih =>
      refine ⟨?_, ih h.2⟩
      rw [List.getElem?_append_left (List.getElem?_eq_some_iff.1 h.1).1]
      exact h.1

/-- What is further out in the stack is around the elements further in. -/
theorem Chained.above {outer : List ElementId} (h : Chained parents (id :: outer))
    (hi : i ∈ outer) : Above parents i id := by
  induction outer generalizing id with
  | nil => cases hi
  | cons parent outer ih =>
      rcases List.mem_cons.1 hi with rfl | hi
      · exact .parent h.1
      · exact .outer h.1 (ih h.2 hi)

/-- What is in the stack is around the next element. -/
theorem Chained.above_append {stack : List ElementId} (h : Chained parents stack)
    (hi : i ∈ stack) : Above (parents ++ [stack.head?]) i parents.length := by
  cases stack with
  | nil => cases hi
  | cons id outer =>
      have hnew : (parents ++ [some id])[parents.length]? = some (some id) := by simp
      rcases List.mem_cons.1 hi with rfl | hi
      · exact .parent hnew
      · exact .outer hnew ((h.above hi).append _)

/-! ## Layouts -/

/-- The spans of an outline are laid out like its elements; `tags` are their start tags and `last`
is the span of the last event. -/
structure Laid (tags : List StartTag) (last : Span) (o : Outline) : Prop where
  ordered : o.Ordered
  length_eq : tags.length = o.headers.length
  last_le : last.start ≤ last.stop
  /-- An element starts with its start tag, and ends in the past. -/
  extent : ∀ {id : ElementId} {h : Header} {tag : StartTag},
    o.headers[id]? = some h → tags[id]? = some tag →
    h.span.start = tag.span.start ∧ tag.span.start < tag.span.stop ∧
      tag.span.stop ≤ h.span.stop ∧ h.span.start ≤ last.start ∧ h.span.stop ≤ last.stop
  /-- An element starts behind the start tag of its parent. Once the parent is closed, it ends in
  the parent. -/
  inside : ∀ {id parent : ElementId} {h outer : Header} {tag : StartTag},
    o.headers[id]? = some h → h.parent = some parent → o.headers[parent]? = some outer →
    tags[parent]? = some tag →
    tag.span.stop ≤ h.span.start ∧ (parent ∈ o.enclosing ∨ h.span.stop ≤ outer.span.stop)
  chained : Chained o.parents o.enclosing
  /-- Of two elements, one is around the other, or it is closed in front of the other. -/
  apart : ∀ {i j : ElementId} {h h' : Header}, i < j →
    o.headers[i]? = some h → o.headers[j]? = some h' →
    Above o.parents i j ∨ (i ∉ o.enclosing ∧ h.span.stop ≤ h'.span.start)

theorem laid_nil : Laid [] (.empty 0) {} where
  ordered := ordered_nil
  length_eq := rfl
  last_le := Nat.le_refl 0
  extent := by simp
  inside := by simp
  chained := trivial
  apart := by simp

theorem Laid.exists_tag {h : Header} (hlaid : Laid tags last o) (hid : o.headers[id]? = some h) :
    ∃ tag, tags[id]? = some tag := by
  have hlt := (List.getElem?_eq_some_iff.1 hid).1
  rw [← hlaid.length_eq] at hlt
  exact ⟨_, List.getElem?_eq_getElem hlt⟩

/-! ## A new element -/

section Opened

variable {tag : StartTag} {unary : Bool}

theorem parents_opened (o : Outline) (tag : StartTag) (unary : Bool) :
    (o.step (.opened tag unary)).parents = o.parents ++ [o.enclosing.head?] := by
  simp [step, Outline.parents]

theorem mem_enclosing_opened (hi : i < o.headers.length) :
    i ∈ (o.step (.opened tag unary)).enclosing ↔ i ∈ o.enclosing := by
  cases unary with
  | true => rfl
  | false => simp [step, Nat.ne_of_lt hi]

/-- A header is an old one, or that of the new element. -/
theorem getElem?_headers_opened {h : Header}
    (hid : (o.step (.opened tag unary)).headers[id]? = some h) :
    (id < o.headers.length ∧ o.headers[id]? = some h) ∨
      (id = o.headers.length ∧ h = ⟨tag.name, o.enclosing.head?, tag.span⟩) := by
  simp only [step] at hid
  by_cases hlt : id < o.headers.length
  · rw [List.getElem?_append_left hlt] at hid
    exact .inl ⟨hlt, hid⟩
  · have hle := Nat.le_of_not_lt hlt
    rw [List.getElem?_append_right hle, List.getElem?_singleton] at hid
    split at hid
    · next hzero =>
        exact .inr ⟨Nat.le_antisymm (Nat.le_of_sub_eq_zero hzero) hle, (Option.some.inj hid).symm⟩
    · cases hid

theorem getElem?_tags_opened {tag' : StartTag} (hlength : tags.length = o.headers.length)
    (hid : id < o.headers.length) (h : (tags ++ [tag])[id]? = some tag') :
    tags[id]? = some tag' := by
  rwa [List.getElem?_append_left (hlength ▸ hid)] at h

theorem Laid.opened (h : Laid tags last o) (hstart : last.stop ≤ tag.span.start)
    (hne : tag.span.start < tag.span.stop) :
    Laid (tags ++ [tag]) tag.span (o.step (.opened tag unary)) where
  ordered := h.ordered.step _
  length_eq := by
    simp [step, h.length_eq]
  last_le := Nat.le_of_lt hne
  extent := by
    intro id header tag' hid htag
    rcases getElem?_headers_opened hid with ⟨hlt, hold⟩ | ⟨rfl, rfl⟩
    · rcases h.extent hold (getElem?_tags_opened h.length_eq hlt htag) with
        ⟨hfirst, hlt', hstop, _, hpast⟩
      exact ⟨hfirst, hlt', hstop, by omega, by omega⟩
    · rw [← h.length_eq] at htag
      obtain rfl : tag = tag' := by simpa using htag
      exact ⟨rfl, hne, Nat.le_refl _, Nat.le_refl _, Nat.le_refl _⟩
  inside := by
    intro id parent header outer tag' hid hparent houter htag
    rcases getElem?_headers_opened hid with ⟨hlt, hold⟩ | ⟨rfl, rfl⟩
    · -- The parent of an old element is an old element.
      have hparent' := h.ordered.parent_lt hold hparent
      rcases getElem?_headers_opened houter with ⟨hlt', houter'⟩ | ⟨rfl, _⟩
      · rcases h.inside hold hparent houter' (getElem?_tags_opened h.length_eq hlt' htag) with
          ⟨hstop, hopen | hend⟩
        · exact ⟨hstop, .inl ((mem_enclosing_opened hlt').2 hopen)⟩
        · exact ⟨hstop, .inr hend⟩
      · exact absurd hlt (Nat.not_lt_of_lt hparent')
    · have hmem : parent ∈ o.enclosing := List.mem_of_mem_head? hparent
      have hlt := h.ordered.enclosing_lt parent hmem
      rcases getElem?_headers_opened houter with ⟨_, houter'⟩ | ⟨rfl, _⟩
      · rcases h.extent houter' (getElem?_tags_opened h.length_eq hlt htag) with
          ⟨_, _, hstop, _, hpast⟩
        refine ⟨?_, .inl ((mem_enclosing_opened hlt).2 hmem)⟩
        show tag'.span.stop ≤ tag.span.start
        omega
      · exact absurd hlt (Nat.lt_irrefl _)
  chained := by
    rw [parents_opened]
    cases unary with
    | true => exact h.chained.append _
    | false =>
        refine ⟨?_, h.chained.append _⟩
        rw [← length_parents, List.getElem?_concat_length]
  apart := by
    intro i j header header' hij hi hj
    rw [parents_opened]
    rcases getElem?_headers_opened hi with ⟨hlt, hi'⟩ | ⟨rfl, _⟩
    · rw [mem_enclosing_opened hlt]
      rcases getElem?_headers_opened hj with ⟨_, hj'⟩ | ⟨rfl, rfl⟩
      · rcases h.apart hij hi' hj' with habove | hbefore
        · exact .inl (habove.append _)
        · exact .inr hbefore
      · -- What is open is around the new element, what is closed stands before it.
        by_cases hopen : i ∈ o.enclosing
        · rw [← length_parents]
          exact .inl (h.chained.above_append hopen)
        · rcases h.exists_tag hi' with ⟨tag', htag⟩
          rcases h.extent hi' htag with ⟨_, _, _, _, hpast⟩
          exact .inr ⟨hopen, Nat.le_trans hpast hstart⟩
    · rcases getElem?_headers_opened hj with ⟨hlt, _⟩ | ⟨rfl, _⟩
      · exact absurd hij (Nat.not_lt_of_lt hlt)
      · exact absurd hij (Nat.lt_irrefl _)

end Opened

/-! ## A closed element -/

section Closed

variable {name : String} {span : Span} {top : ElementId} {outer : List ElementId}

theorem parents_closed (o : Outline) (name : String) (span : Span) :
    (o.step (.closed name span)).parents = o.parents := by
  cases henclosing : o.enclosing with
  | nil => rw [step_closed_nil henclosing]
  | cons top outer =>
      rw [step_closed_cons henclosing]
      apply List.ext_getElem?
      intro id
      simp only [Outline.parents, List.getElem?_map, List.getElem?_modify]
      cases o.headers[id]? with
      | none => rfl
      | some h => by_cases htop : top = id <;> simp [htop]

/-- The innermost element ends with the event, the others are as before. -/
theorem Laid.getElem?_headers_closed {h : Header} (hlaid : Laid tags last o)
    (henclosing : o.enclosing = top :: outer) (hstart : last.start ≤ span.start)
    (hstop : last.stop ≤ span.stop)
    (hid : (o.step (.closed name span)).headers[id]? = some h) :
    ∃ old, o.headers[id]? = some old ∧ h.parent = old.parent ∧ h.span.start = old.span.start ∧
      ((id = top ∧ h.span.stop = span.stop) ∨ (id ≠ top ∧ h.span.stop = old.span.stop)) := by
  rw [step_closed_cons henclosing, List.getElem?_modify] at hid
  rcases Option.map_eq_some_iff.1 hid with ⟨old, hold, rfl⟩
  refine ⟨old, hold, ?_⟩
  by_cases htop : top = id
  · subst htop
    rcases hlaid.exists_tag hold with ⟨tag, htag⟩
    rcases hlaid.extent hold htag with ⟨_, _, _, hfirst, hpast⟩
    have hmin : min old.span.start span.start = old.span.start :=
      Nat.min_eq_left (Nat.le_trans hfirst hstart)
    have hmax : max old.span.stop span.stop = span.stop :=
      Nat.max_eq_right (Nat.le_trans hpast hstop)
    simp [Span.cover, hmin, hmax]
  · simp [htop, Ne.symm htop]

/-- The innermost open element is inside the next one. -/
theorem Laid.parent_mem {h : Header} {parent : ElementId} (hlaid : Laid tags last o)
    (henclosing : o.enclosing = top :: outer) (htop : o.headers[top]? = some h)
    (hparent : h.parent = some parent) : parent ∈ outer := by
  have hchained := hlaid.chained
  rw [henclosing] at hchained
  have hhead : o.parents[top]? = some (some parent) := by
    simp [Outline.parents, htop, hparent]
  rw [hchained.1] at hhead
  exact List.mem_of_mem_head? (Option.some.inj hhead)

theorem Laid.closed_cons (h : Laid tags last o) (henclosing : o.enclosing = top :: outer)
    (hstart : last.start ≤ span.start) (hstop : last.stop ≤ span.stop)
    (hspan : span.start ≤ span.stop) : Laid tags span (o.step (.closed name span)) := by
  have henclosing' : (o.step (.closed name span)).enclosing = outer := by
    rw [step_closed_cons henclosing]
  refine ⟨h.ordered.step _, ?_, hspan, ?_, ?_, ?_, ?_⟩
  · rw [h.length_eq, step_closed_cons henclosing, List.length_modify]
  · intro id header tag hid htag
    rcases h.getElem?_headers_closed henclosing hstart hstop hid with ⟨old, hold, _, hfirst, hend⟩
    rcases h.extent hold htag with ⟨htagStart, htagLt, htagStop, holdStart, holdStop⟩
    rcases hend with ⟨_, hend⟩ | ⟨_, hend⟩ <;> omega
  · intro id parent header outerHeader tag hid hparent houter htag
    rcases h.getElem?_headers_closed henclosing hstart hstop hid with
      ⟨old, hold, hsame, hfirst, hend⟩
    rcases h.getElem?_headers_closed henclosing hstart hstop houter with
      ⟨oldOuter, holdOuter, _, _, houterEnd⟩
    rcases h.exists_tag hold with ⟨tag', htag'⟩
    rcases h.extent hold htag' with ⟨_, _, _, _, hpast⟩
    rw [hsame] at hparent
    rcases h.inside hold hparent holdOuter htag with ⟨hbehind, hinside⟩
    rw [henclosing, List.mem_cons] at hinside
    refine ⟨hfirst ▸ hbehind, ?_⟩
    rw [henclosing']
    rcases hend with ⟨rfl, _⟩ | ⟨_, hend⟩
    · exact .inl (h.parent_mem henclosing hold hparent)
    · rcases houterEnd with ⟨_, houterEnd⟩ | ⟨hne, houterEnd⟩
      · -- The parent ends here, behind everything that has been read.
        exact .inr (by omega)
      · rcases hinside with (htop | hmem) | hle
        · exact absurd htop hne
        · exact .inl hmem
        · exact .inr (by omega)
  · rw [parents_closed, henclosing']
    have hchained := h.chained
    rw [henclosing] at hchained
    exact hchained.2
  · intro i j header header' hij hi hj
    rcases h.getElem?_headers_closed henclosing hstart hstop hi with ⟨old, hold, _, _, hend⟩
    rcases h.getElem?_headers_closed henclosing hstart hstop hj with ⟨old', hold', _, hfirst, _⟩
    rw [parents_closed, henclosing', hfirst]
    rcases h.apart hij hold hold' with habove | ⟨hclosed, hbefore⟩
    · exact .inl habove
    · -- An element that is closed before is not the one that ends here.
      rw [henclosing, List.mem_cons, not_or] at hclosed
      rcases hend with ⟨htop, _⟩ | ⟨_, hend⟩
      · exact absurd htop hclosed.1
      · exact .inr ⟨hclosed.2, hend ▸ hbefore⟩

end Closed

/-! ## Whole timelines -/

/-- Time passes. -/
theorem Laid.mono {span : Span} (h : Laid tags last o) (hstart : last.start ≤ span.start)
    (hstop : last.stop ≤ span.stop) (hspan : span.start ≤ span.stop) : Laid tags span o where
  ordered := h.ordered
  length_eq := h.length_eq
  last_le := hspan
  extent := by
    intro id header tag hid htag
    rcases h.extent hid htag with ⟨htagStart, htagLt, htagStop, hfirst, hpast⟩
    exact ⟨htagStart, htagLt, htagStop, Nat.le_trans hfirst hstart, Nat.le_trans hpast hstop⟩
  inside := h.inside
  chained := h.chained
  apart := h.apart

/-- Every event of a timeline keeps a layout. -/
theorem Laid.step (h : Laid tags last o) (htimeline : Timeline last (event :: events)) :
    Laid (tags ++ startTags [event]) (spanAfter last event) (o.step event) := by
  cases event with
  | opened tag unary =>
      rcases htimeline with ⟨hstart, hne, _⟩
      exact h.opened hstart hne
  | closed name span =>
      rcases htimeline with ⟨hstart, hstop, hspan, _⟩
      rw [show startTags [.closed name span] = [] from rfl, List.append_nil]
      cases henclosing : o.enclosing with
      | nil =>
          rw [step_closed_nil henclosing]
          exact h.mono hstart hstop hspan
      | cons top outer => exact h.closed_cons henclosing hstart hstop hspan
  | text content span =>
      rcases htimeline with ⟨hstart, hne, _⟩
      have hlast := h.last_le
      rw [show startTags [.text content span] = [] from rfl, List.append_nil]
      exact h.mono (Nat.le_trans hlast hstart) (Nat.le_trans hstart (Nat.le_of_lt hne))
        (Nat.le_of_lt hne)
  | warned warning =>
      rw [show startTags [.warned warning] = [] from rfl, List.append_nil]
      exact h

end Outline
end TemplateMarkup
