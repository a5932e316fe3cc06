import TemplateMarkup.Event.Basic

/-!
# Nesting of events

Start and end events are brackets; unary start events, text and warnings stand between them. This
file defines:

* `Event.replay? stack events` — reading `events` with a stack of the names that are open,
* `Event.Balanced events` — every bracket in `events` has its partner in `events`,
* `Event.Enclosing events ids` — the start events that are still open behind `events`.

The main step is `replay?_split`: where a replay closes a name in the end, it does so behind a
balanced stretch.
-/

namespace TemplateMarkup
namespace Event

variable {name : String} {stack : List String} {events more : List Event}

/-! ## Replaying with a stack of names -/

/-- Takes in one event; `none` if it ends something other than the innermost name. -/
def replayOne? (stack : List String) : Event → Option (List String)
  | .opened tag unary => some (if unary then stack else tag.name :: stack)
  | .closed name _ =>
      match stack with
      | [] => none
      | top :: outer => if name = top then some outer else none
  | .text _ _ => some stack
  | .warned _ => some stack

/-- The names open behind `events`, innermost first, when those of `stack` are open before. -/
def replay? (stack : List String) (events : List Event) : Option (List String) :=
  events.foldlM replayOne? stack

@[simp] theorem replay?_nil (stack : List String) : replay? stack [] = some stack := rfl

@[simp] theorem replay?_text (stack : List String) (content : String) (span : Span)
    (events : List Event) : replay? stack (.text content span :: events) = replay? stack events :=
  rfl

@[simp] theorem replay?_warned (stack : List String) (warning : Warning) (events : List Event) :
    replay? stack (.warned warning :: events) = replay? stack events :=
  rfl

@[simp] theorem replay?_opened (stack : List String) (tag : StartTag) (unary : Bool)
    (events : List Event) :
    replay? stack (.opened tag unary :: events) =
      replay? (if unary then stack else tag.name :: stack) events :=
  rfl

@[simp] theorem replay?_closed_nil (name : String) (span : Span) (events : List Event) :
    replay? [] (.closed name span :: events) = none :=
  rfl

@[simp] theorem replay?_closed_cons (top : String) (outer : List String) (name : String)
    (span : Span) (events : List Event) :
    replay? (top :: outer) (.closed name span :: events) =
      if name = top then replay? outer events else none := by
  by_cases h : name = top <;> simp [replay?, replayOne?, h]

theorem replay?_append (stack : List String) (events more : List Event) :
    replay? stack (events ++ more) = (replay? stack events).bind (replay? · more) := by
  simp only [replay?, List.foldlM_append]
  rfl

/-! ## Balanced stretches -/

/-- Every start event that is not unary has its end event, properly nested. -/
inductive Balanced : List Event → Prop where
  | nil : Balanced []
  | text {content : String} {span : Span} {events : List Event} :
      Balanced events → Balanced (.text content span :: events)
  | warned {warning : Warning} {events : List Event} :
      Balanced events → Balanced (.warned warning :: events)
  | unary {tag : StartTag} {events : List Event} :
      Balanced events → Balanced (.opened tag true :: events)
  | element {tag : StartTag} {span : Span} {inside events : List Event} :
      Balanced inside → Balanced events →
      Balanced (.opened tag false :: (inside ++ .closed tag.name span :: events))

/-- A replay that ends with nothing open closes its innermost name behind a balanced stretch. -/
theorem replay?_split (h : replay? (name :: stack) events = some []) :
    ∃ inside span rest, events = inside ++ .closed name span :: rest ∧ Balanced inside ∧
      replay? stack rest = some [] := by
  -- By strong induction on the length: an element inside takes two uses of the hypothesis, one
  -- for its own end and one for what is left.
  induction hn : events.length using Nat.strongRecOn generalizing name stack events with
  | ind n ih =>
      cases events with
      | nil => simp at h
      | cons event events =>
          have hlt : events.length < n := by simp [← hn]
          cases event with
          | text content textSpan =>
              rw [replay?_text] at h
              rcases ih _ hlt h rfl with ⟨inside, span, rest, rfl, hinside, hrest⟩
              exact ⟨.text content textSpan :: inside, span, rest, rfl, .text hinside, hrest⟩
          | warned warning =>
              rw [replay?_warned] at h
              rcases ih _ hlt h rfl with ⟨inside, span, rest, rfl, hinside, hrest⟩
              exact ⟨.warned warning :: inside, span, rest, rfl, .warned hinside, hrest⟩
          | closed other span =>
              -- The first end event closes the name itself.
              rw [replay?_closed_cons] at h
              split at h
              · next heq => exact ⟨[], span, events, by simp [heq], .nil, h⟩
              · simp at h
          | opened tag unary =>
              rw [replay?_opened] at h
              cases unary with
              | true =>
                  rcases ih _ hlt h rfl with ⟨inside, span, rest, rfl, hinside, hrest⟩
                  exact ⟨.opened tag true :: inside, span, rest, rfl, .unary hinside, hrest⟩
              | false =>
                  -- The opened element closes first; what is left is shorter still.
                  rcases ih _ hlt h rfl with ⟨content, span, more, rfl, hcontent, hmore⟩
                  have hlt' : more.length < n := by
                    simp only [List.length_append, List.length_cons] at hlt
                    omega
                  rcases ih _ hlt' hmore rfl with ⟨inside, span', rest, rfl, hinside, hrest⟩
                  exact ⟨.opened tag false :: (content ++ .closed tag.name span :: inside), span',
                    rest, by simp, .element hcontent hinside, hrest⟩

theorem Balanced.append (h : Balanced events) (hmore : Balanced more) :
    Balanced (events ++ more) := by
  induction h with
  | nil => exact hmore
  | text _ ih => exact .text ih
  | warned _ ih => exact .warned ih
  | unary _ ih => exact .unary ih
  | element hinside _ _ ih => simpa using Balanced.element hinside ih

/-- A balanced stretch leaves open what was open. -/
theorem Balanced.replay? (h : Balanced events) (stack : List String) :
    Event.replay? stack events = some stack := by
  induction h generalizing stack with
  | nil => rfl
  | text _ ih => exact ih stack
  | warned _ ih => exact ih stack
  | unary _ ih => exact ih stack
  | element _ _ ihinside ihevents =>
      rw [replay?_opened, replay?_append, if_neg Bool.false_ne_true, ihinside]
      simpa using ihevents stack

/-! ## What is open behind a list of events -/

/-- The number of start events. -/
def startCount (events : List Event) : Nat :=
  events.countP fun
    | .opened _ _ => true
    | _ => false

@[simp] theorem startCount_append (events more : List Event) :
    startCount (events ++ more) = startCount events + startCount more :=
  List.countP_append

/-- Every number below is that of a start event. -/
theorem exists_start {n : Nat} (h : n < startCount events) :
    ∃ before tag unary after, events = before ++ .opened tag unary :: after ∧
      startCount before = n := by
  induction events generalizing n with
  | nil => simp [startCount] at h
  | cons event events ih =>
      have hsplit : startCount (event :: events) = startCount [event] + startCount events :=
        startCount_append [event] events
      -- Either it is the first event, or it is further back and has the first one before it.
      by_cases hfirst : n < startCount [event]
      · cases event with
        | opened tag unary => exact ⟨[], tag, unary, events, rfl, by simp_all [startCount]⟩
        | closed name span => simp [startCount] at hfirst
        | text content span => simp [startCount] at hfirst
        | warned warning => simp [startCount] at hfirst
      · have hlater : n - startCount [event] < startCount events := by omega
        rcases ih hlater with ⟨before, tag, unary, after, rfl, hcount⟩
        refine ⟨event :: before, tag, unary, after, rfl, ?_⟩
        have hbefore : startCount (event :: before) = startCount [event] + startCount before :=
          startCount_append [event] before
        omega

/-- A start event: its number among the start events, and its tag. -/
abbrev Numbered := Nat × StartTag

/-- The start events still open behind `events`, innermost first. Between each of them and the
next only balanced stretches stand. -/
inductive Enclosing : List Event → List Numbered → Prop where
  | outermost {events : List Event} : Balanced events → Enclosing events []
  | inside {outer inner : List Event} {opens : List Numbered} {tag : StartTag} :
      Enclosing outer opens → Balanced inner →
      Enclosing (outer ++ .opened tag false :: inner) ((startCount outer, tag) :: opens)

/-- What is open has been started. -/
theorem Enclosing.lt_startCount {opens : List Numbered} {n : Nat} {tag : StartTag}
    (h : Enclosing events ((n, tag) :: opens)) : n < startCount events := by
  cases h with
  | inside _ _ => simp [startCount]

theorem Enclosing.append {opens : List Numbered} (h : Enclosing events opens)
    (hmore : Balanced more) : Enclosing (events ++ more) opens := by
  cases h with
  | outermost hevents => exact .outermost (hevents.append hmore)
  | inside houter hinner =>
      -- The innermost stretch grows; nothing further out is touched.
      simpa using Enclosing.inside houter (hinner.append hmore)

/-- A replay from the start finds the names of what is open. -/
theorem Enclosing.replay?_eq {opens : List Numbered} (h : Enclosing events opens) :
    replay? [] events = some (opens.map (·.2.name)) := by
  induction h with
  | outermost hbalanced => exact hbalanced.replay? []
  | inside _ hinner ih =>
      rw [replay?_append, ih, Option.bind_some, replay?_opened, if_neg Bool.false_ne_true]
      exact hinner.replay? _

/-- A replay keeps track of the names of what is open. -/
theorem Enclosing.replay {opens : List Numbered} (h : Enclosing events opens)
    (hmore : replay? (opens.map (·.2.name)) more = some stack) :
    ∃ opens', Enclosing (events ++ more) opens' ∧ stack = opens'.map (·.2.name) := by
  induction more generalizing events opens with
  | nil =>
      simp only [replay?_nil, Option.some.injEq] at hmore
      exact ⟨opens, by simpa using h, hmore.symm⟩
  | cons event more ih =>
      -- The first event is moved over to what has been read.
      suffices hnext : ∃ opens', Enclosing (events ++ [event]) opens' ∧
          replay? (opens'.map (·.2.name)) more = some stack by
        rcases hnext with ⟨opens', hevents, hreplay⟩
        simpa using ih hevents hreplay
      cases event with
      | text content span => exact ⟨opens, h.append (.text .nil), hmore⟩
      | warned warning => exact ⟨opens, h.append (.warned .nil), hmore⟩
      | opened tag unary =>
          cases unary with
          | true => exact ⟨opens, h.append (.unary .nil), hmore⟩
          | false => exact ⟨(startCount events, tag) :: opens, .inside h .nil, hmore⟩
      | closed name span =>
          cases h with
          | outermost hevents => simp at hmore
          | inside houter hinner =>
              -- The innermost start event has found its partner: both become part of the
              -- balanced stretch one level further out.
              simp only [List.map_cons, replay?_closed_cons] at hmore
              split at hmore
              · next heq =>
                  refine ⟨_, ?_, hmore⟩
                  simpa [heq] using houter.append (.element hinner .nil)
              · simp at hmore

/-- Somewhere in a list that can be replayed, it is known what is open. -/
theorem exists_enclosing (h : replay? [] (events ++ more) = some stack) :
    ∃ opens, Enclosing events opens ∧ replay? (opens.map (·.2.name)) more = some stack := by
  rw [replay?_append] at h
  rcases Option.bind_eq_some_iff.1 h with ⟨middle, hevents, hmore⟩
  rcases (Enclosing.outermost .nil).replay hevents with ⟨opens, hopens, rfl⟩
  exact ⟨opens, hopens, hmore⟩

/-- Events that open and close what they should are balanced. -/
theorem balanced_of_replay? (h : replay? [] events = some []) : Balanced events := by
  rcases (Enclosing.outermost .nil).replay h with ⟨opens, hopens, hnames⟩
  cases hopens with
  | outermost hevents => exact hevents
  | inside _ _ => cases hnames

end Event
end TemplateMarkup
