import TemplateMarkup.Proofs.Event.Nesting
import TemplateMarkup.Template.Basic

/-!
# The outline of a list of events

The brackets of a source decide, for each element, its tag, its parent and its span, and which
elements are open. An `Outline` collects this from events alone:

* `Outline.step` takes in one event, `Outline.ofEvents` a whole list,
* `Outline.run_of_balanced` — a balanced stretch leaves open what was open,
* `Outline.header_unary`, `Outline.header_element` — what is collected about a start event whose
  surroundings are known.
-/

namespace TemplateMarkup

/-- What an outline keeps of an element. -/
structure Header where
  tag : String
  parent : Option ElementId
  span : Span
  deriving DecidableEq, Repr

structure Outline where
  headers : List Header := []
  enclosing : List ElementId := []
  deriving DecidableEq, Repr

namespace Outline

variable {o : Outline} {events before after inside rest : List Event} {id : ElementId}

/-- Takes in one event. -/
def step (o : Outline) : Event → Outline
  | .opened tag unary =>
      { headers := o.headers ++ [⟨tag.name, o.enclosing.head?, tag.span⟩]
        enclosing := if unary then o.enclosing else o.headers.length :: o.enclosing }
  | .closed _ span =>
      match o.enclosing with
      | [] => o
      | id :: outer =>
          { headers := o.headers.modify id fun h => { h with span := h.span.cover span }
            enclosing := outer }
  | .text _ _ => o
  | .warned _ => o

def run (o : Outline) (events : List Event) : Outline :=
  events.foldl step o

@[simp] theorem run_nil (o : Outline) : o.run [] = o := rfl

@[simp] theorem run_cons (o : Outline) (event : Event) (events : List Event) :
    o.run (event :: events) = (o.step event).run events := rfl

@[simp] theorem run_append (o : Outline) (events more : List Event) :
    o.run (events ++ more) = (o.run events).run more :=
  List.foldl_append

theorem step_closed_nil {name : String} {span : Span} (h : o.enclosing = []) :
    o.step (.closed name span) = o := by
  simp [step, h]

theorem step_closed_cons {name : String} {span : Span} {outer : List ElementId}
    (h : o.enclosing = id :: outer) :
    o.step (.closed name span) =
      { headers := o.headers.modify id fun h => { h with span := h.span.cover span }
        enclosing := outer } := by
  simp [step, h]

/-! ## What a run keeps -/

theorem length_headers_step (o : Outline) (event : Event) :
    (o.step event).headers.length = o.headers.length + Event.startCount [event] := by
  cases event with
  | opened tag unary => simp [step, Event.startCount]
  | closed name span =>
      cases henclosing : o.enclosing with
      | nil => simp [step_closed_nil henclosing, Event.startCount]
      | cons top outer =>
          -- The span of a header is covered in place.
          simp [step_closed_cons henclosing, Event.startCount]
  | text content span => simp [step, Event.startCount]
  | warned warning => simp [step, Event.startCount]

theorem length_headers_run (o : Outline) (events : List Event) :
    (o.run events).headers.length = o.headers.length + Event.startCount events := by
  induction events generalizing o with
  | nil => rfl
  | cons event events ih =>
      have hsplit : Event.startCount (event :: events) =
          Event.startCount [event] + Event.startCount events :=
        Event.startCount_append [event] events
      rw [run_cons, ih, length_headers_step, hsplit, Nat.add_assoc]

/-- The elements that are open are there, and a parent comes before its children. -/
structure Ordered (o : Outline) : Prop where
  enclosing_lt : ∀ id ∈ o.enclosing, id < o.headers.length
  parent_lt : ∀ {id parent : ElementId} {h : Header},
    o.headers[id]? = some h → h.parent = some parent → parent < id

theorem ordered_nil : Ordered {} where
  enclosing_lt := by simp
  parent_lt := by simp

theorem Ordered.step (h : Ordered o) (event : Event) : Ordered (o.step event) := by
  cases event with
  | opened tag unary =>
      constructor
      · intro id hid
        -- Open is what was open, and the new element unless it is unary.
        have hid' : id = o.headers.length ∨ id ∈ o.enclosing := by
          cases unary with
          | true => exact .inr hid
          | false => simpa [Outline.step] using hid
        simp only [Outline.step, List.length_append, List.length_cons, List.length_nil]
        rcases hid' with rfl | hid'
        · exact Nat.lt_succ_self _
        · exact Nat.lt_succ_of_lt (h.enclosing_lt id hid')
      · intro id parent header hid hparent
        simp only [Outline.step] at hid
        by_cases hlt : id < o.headers.length
        · rw [List.getElem?_append_left hlt] at hid
          exact h.parent_lt hid hparent
        · -- The new element: its parent is open, hence there already.
          have hle : o.headers.length ≤ id := Nat.le_of_not_lt hlt
          rw [List.getElem?_append_right hle] at hid
          have hnew := List.mem_of_getElem? hid
          simp only [List.mem_singleton] at hnew
          rw [hnew] at hparent
          exact Nat.lt_of_lt_of_le (h.enclosing_lt parent (List.mem_of_mem_head? hparent)) hle
  | closed name span =>
      cases henclosing : o.enclosing with
      | nil => simpa [step_closed_nil henclosing] using h
      | cons top outer =>
          rw [step_closed_cons henclosing]
          constructor
          · intro id hid
            have hmem : id ∈ o.enclosing := by simp [henclosing, hid]
            simpa using h.enclosing_lt id hmem
          · intro id parent header hid hparent
            -- Only a span has changed, and no parent.
            rw [List.getElem?_modify] at hid
            rcases Option.map_eq_some_iff.1 hid with ⟨old, hold, rfl⟩
            by_cases htop : top = id
            · exact h.parent_lt hold (by simpa [htop] using hparent)
            · exact h.parent_lt hold (by simpa [htop] using hparent)
  | text content span => exact h
  | warned warning => exact h

theorem Ordered.run (h : Ordered o) (events : List Event) : Ordered (o.run events) := by
  induction events generalizing o with
  | nil => exact h
  | cons event events ih => exact ih (h.step event)

/-- An element that is not open stays closed and keeps its header. -/
theorem run_of_not_mem (events : List Event) (hid : id < o.headers.length)
    (hclosed : id ∉ o.enclosing) :
    (o.run events).headers[id]? = o.headers[id]? := by
  induction events generalizing o with
  | nil => rfl
  | cons event events ih =>
      -- One step keeps the header, and does not open the element again.
      suffices hstep : (o.step event).headers[id]? = o.headers[id]? ∧
          id < (o.step event).headers.length ∧ id ∉ (o.step event).enclosing by
        rcases hstep with ⟨hheader, hlt, hmem⟩
        exact (ih hlt hmem).trans hheader
      cases event with
      | opened tag unary =>
          refine ⟨List.getElem?_append_left hid, ?_, ?_⟩
          · simp only [step, List.length_append]
            exact Nat.lt_add_right _ hid
          · cases unary with
            | true => exact hclosed
            | false => simpa [step, hclosed] using Nat.ne_of_lt hid
      | closed name span =>
          cases henclosing : o.enclosing with
          | nil =>
              rw [step_closed_nil henclosing]
              exact ⟨rfl, hid, hclosed⟩
          | cons top outer =>
              rw [step_closed_cons henclosing]
              -- The header that changes is on the stack, and `id` is not.
              rw [henclosing, List.mem_cons, not_or] at hclosed
              refine ⟨?_, by simpa using hid, hclosed.2⟩
              exact List.getElem?_modify_ne _ _ (Ne.symm hclosed.1)
      | text content span => exact ⟨rfl, hid, hclosed⟩
      | warned warning => exact ⟨rfl, hid, hclosed⟩

/-- A balanced stretch leaves open what was open, and all headers as they were. -/
theorem run_of_balanced (h : Event.Balanced events) (o : Outline) :
    (o.run events).enclosing = o.enclosing ∧
      ∀ id < o.headers.length, (o.run events).headers[id]? = o.headers[id]? := by
  induction h generalizing o with
  | nil => exact ⟨rfl, fun _ _ => rfl⟩
  | text _ ih => exact ih o
  | warned _ ih => exact ih o
  | @unary tag events _ ih =>
      rcases ih (o.step (.opened tag true)) with ⟨henclosing, hheaders⟩
      refine ⟨henclosing, fun id hid => ?_⟩
      have hlt : id < (o.step (.opened tag true)).headers.length := by
        simp only [step, List.length_append]
        exact Nat.lt_add_right _ hid
      exact (hheaders id hlt).trans (List.getElem?_append_left hid)
  | @element tag span inside events _ _ ihinside ihevents =>
      have hopened : ∀ id < o.headers.length,
          (o.step (.opened tag false)).headers[id]? = o.headers[id]? :=
        fun id hid => List.getElem?_append_left hid
      rcases ihinside (o.step (.opened tag false)) with ⟨henclosing, hheaders⟩
      generalize hinner : (o.step (.opened tag false)).run inside = inner at henclosing hheaders
      -- The element itself is on top again when its end tag comes.
      have hclosed : inner.step (.closed tag.name span) =
          { headers := inner.headers.modify o.headers.length fun h =>
              { h with span := h.span.cover span }
            enclosing := o.enclosing } :=
        step_closed_cons henclosing
      have hlength : o.headers.length < (o.step (.opened tag false)).headers.length := by
        simp [step]
      -- Only its own header has changed then, and that one was not there before.
      rcases ihevents (inner.step (.closed tag.name span)) with ⟨henclosing', hheaders'⟩
      simp only [run_cons, run_append, hinner]
      refine ⟨by rw [henclosing', hclosed], fun id hid => ?_⟩
      have hlt : id < inner.headers.length := by
        rw [← hinner, length_headers_run]
        exact Nat.lt_add_right _ (Nat.lt_trans hid hlength)
      calc
        _ = (inner.step (.closed tag.name span)).headers[id]? :=
            hheaders' id (by rw [hclosed]; simpa using hlt)
        _ = inner.headers[id]? := by
            rw [hclosed]
            exact List.getElem?_modify_ne _ _ (Nat.ne_of_gt hid)
        _ = (o.step (.opened tag false)).headers[id]? :=
            hheaders id (Nat.lt_trans hid hlength)
        _ = o.headers[id]? := hopened id hid

/-! ## The outline of a list of events -/

def ofEvents (events : List Event) : Outline :=
  run {} events

theorem length_headers_ofEvents (events : List Event) :
    (ofEvents events).headers.length = Event.startCount events :=
  (length_headers_run {} events).trans (Nat.zero_add _)

theorem ordered_ofEvents (events : List Event) : Ordered (ofEvents events) :=
  ordered_nil.run events

/-- The outline keeps the numbers of the start events that are open. -/
theorem enclosing_ofEvents {opens : List Event.Numbered} (h : Event.Enclosing events opens) :
    (ofEvents events).enclosing = opens.map (·.1) := by
  induction h with
  | outermost hbalanced => exact (run_of_balanced hbalanced {}).1
  | @inside outer inner opens tag _ hinner ih =>
      have hinside := (run_of_balanced hinner ((ofEvents outer).step (.opened tag false))).1
      calc
        _ = (((ofEvents outer).step (.opened tag false)).run inner).enclosing := by
            simp [ofEvents]
        _ = (ofEvents outer).headers.length :: (ofEvents outer).enclosing := hinside
        _ = _ := by rw [length_headers_ofEvents, ih, List.map_cons]

/-- A new element has as its parent the innermost of the elements around it. -/
theorem header_opened {opens : List Event.Numbered} (h : Event.Enclosing before opens)
    (tag : StartTag) (unary : Bool) :
    ((ofEvents before).step (.opened tag unary)).headers[Event.startCount before]? =
      some ⟨tag.name, opens.head?.map (·.1), tag.span⟩ := by
  have hparent : (ofEvents before).enclosing.head? = opens.head?.map (·.1) := by
    rw [enclosing_ofEvents h, List.head?_map]
  simp [step, hparent, ← length_headers_ofEvents]

theorem startCount_lt_opened (before : List Event) (tag : StartTag) (unary : Bool) :
    Event.startCount before <
      ((ofEvents before).step (.opened tag unary)).headers.length := by
  simp [step, length_headers_ofEvents]

theorem startCount_not_mem (before : List Event) :
    Event.startCount before ∉ (ofEvents before).enclosing := by
  intro hmem
  have hlt := (ordered_ofEvents before).enclosing_lt _ hmem
  rw [length_headers_ofEvents] at hlt
  exact Nat.lt_irrefl _ hlt

/-- The innermost element that is open has its tag from its start event. -/
theorem header_innermost {opens : List Event.Numbered} {id : ElementId} {tag : StartTag}
    (h : Event.Enclosing events ((id, tag) :: opens)) :
    ∃ header, (ofEvents events).headers[id]? = some header ∧ header.tag = tag.name := by
  cases h with
  | @inside outer inner _ _ houter hinner =>
      have hheaders := (run_of_balanced hinner ((ofEvents outer).step (.opened tag false))).2 _
        (startCount_lt_opened outer tag false)
      refine ⟨⟨tag.name, opens.head?.map (·.1), tag.span⟩, ?_, rfl⟩
      calc
        _ = (((ofEvents outer).step (.opened tag false)).run inner).headers[
              Event.startCount outer]? := by simp [ofEvents]
        _ = ((ofEvents outer).step (.opened tag false)).headers[Event.startCount outer]? :=
            hheaders
        _ = _ := header_opened houter tag false

/-- A unary element keeps the span of its start tag. -/
theorem header_unary {opens : List Event.Numbered} (h : Event.Enclosing before opens)
    (tag : StartTag) (after : List Event) :
    (ofEvents (before ++ .opened tag true :: after)).headers[Event.startCount before]? =
      some ⟨tag.name, opens.head?.map (·.1), tag.span⟩ := by
  calc
    _ = (((ofEvents before).step (.opened tag true)).run after).headers[
          Event.startCount before]? := by simp [ofEvents]
    _ = ((ofEvents before).step (.opened tag true)).headers[Event.startCount before]? :=
        run_of_not_mem after (startCount_lt_opened before tag true) (startCount_not_mem before)
    _ = _ := header_opened h tag true

/-- The span of any other element reaches to its end event. -/
theorem header_element {opens : List Event.Numbered} (h : Event.Enclosing before opens)
    (tag : StartTag) (hinside : Event.Balanced inside) (name : String) (span : Span)
    (rest : List Event) :
    (ofEvents (before ++ .opened tag false :: (inside ++ .closed name span :: rest))).headers[
        Event.startCount before]? =
      some ⟨tag.name, opens.head?.map (·.1), tag.span.cover span⟩ := by
  have hlt := startCount_lt_opened before tag false
  rcases run_of_balanced hinside ((ofEvents before).step (.opened tag false)) with
    ⟨henclosing, hheaders⟩
  generalize hinner : ((ofEvents before).step (.opened tag false)).run inside = inner
    at henclosing hheaders
  -- When the end event comes, the element is on top of the stack; afterwards it is off it.
  have htop : inner.enclosing = Event.startCount before :: (ofEvents before).enclosing := by
    rw [henclosing, ← length_headers_ofEvents]
    rfl
  have hopened := (hheaders _ hlt).trans (header_opened h tag false)
  have hlt' : Event.startCount before < inner.headers.length :=
    (List.getElem?_eq_some_iff.1 hopened).1
  calc
    _ = ((inner.step (.closed name span)).run rest).headers[Event.startCount before]? := by
        simp [ofEvents, ← hinner]
    _ = (inner.step (.closed name span)).headers[Event.startCount before]? := by
        refine run_of_not_mem rest ?_ ?_
        · simpa [step_closed_cons htop] using hlt'
        · simpa [step_closed_cons htop] using startCount_not_mem before
    _ = _ := by
        rw [step_closed_cons htop]
        simp [hopened]

end Outline

end TemplateMarkup
