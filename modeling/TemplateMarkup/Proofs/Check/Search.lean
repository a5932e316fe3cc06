import TemplateMarkup.Check.Block
import TemplateMarkup.Proofs.Event.Nesting

/-!
# The search for the template block

`Block.templateBody?` counts how many elements are open; it keeps no names and looks at none of the
end events. In balanced events that is enough to find the first `template` element that stands in
no other element, and the end event that belongs to it:

* `Block.Opens before tag` — behind `before` the start tag `tag` opens a template block,
* `Block.Free events` — no template block opens in `events`,
* `Block.Search.depth_foldl` — the count is the number of elements that are open,
* `Block.Search.body_foldl_iff` — what is found in balanced events.

Balanced stretches inside an element do not change the search (`Block.Search.foldl_of_balanced`),
and neither do balanced stretches in which no block opens (`Block.Search.foldl_of_free`).
-/

namespace TemplateMarkup
namespace Block

open Event

variable {before events rest after inside : List Event} {tag : StartTag} {span r : Span}
  {name : String}

/-! ## Blocks in a list of events -/

/-- A start tag behind `before` opens a template block: it has the name, and no element is open. -/
def Opens (before : List Event) (tag : StartTag) : Prop :=
  replay? [] before = some [] ∧ Tag.sameName tag.name "template"

/-- No start tag of the events opens a template block. -/
def Free (events : List Event) : Prop :=
  ∀ before tag rest, events = before ++ .opened tag false :: rest → ¬Opens before tag

/-- What stands behind a balanced stretch opens a block there or nowhere. -/
theorem Free.behind (front : List Event) (h : Free (front ++ events)) (hfront : Balanced front) :
    Free events := by
  rintro before tag rest rfl ⟨hbefore, htag⟩
  refine h (front ++ before) tag rest (by simp) ⟨?_, htag⟩
  rw [replay?_append, hfront.replay? []]
  exact hbefore

theorem free_or_opens (events : List Event) :
    Free events ∨
      ∃ before tag rest, events = before ++ .opened tag false :: rest ∧ Opens before tag := by
  by_cases h : ∃ before tag rest, events = before ++ .opened tag false :: rest ∧ Opens before tag
  · exact .inr h
  · exact .inl fun before tag rest heq hopens => h ⟨before, tag, rest, heq, hopens⟩

/-- Of the start tags that open a block one is the first. -/
theorem exists_first (hopens : Opens before tag) (rest : List Event) :
    ∃ first tag' rest', before ++ .opened tag false :: rest =
      first ++ .opened tag' false :: rest' ∧ Opens first tag' ∧ Free first := by
  -- By strong induction on what stands in front: an earlier block has less in front of it.
  induction hn : before.length using Nat.strongRecOn generalizing before tag rest with
  | ind n ih =>
      rcases free_or_opens before with hfree | ⟨earlier, tag', between, rfl, hopens'⟩
      · exact ⟨before, tag, rest, rfl, hopens, hfree⟩
      · have hlt : earlier.length < n := by
          simp only [List.length_append, List.length_cons] at hn
          omega
        rcases ih _ hlt hopens' (between ++ .opened tag false :: rest) rfl with
          ⟨first, tag'', rest', heq, hfirst⟩
        exact ⟨first, tag'', rest', by simpa using heq, hfirst⟩

namespace Search

variable {search : Search}

/-! ## Counting -/

/-- The depth of the search is the number of elements that are open. -/
theorem depth_foldl {stack stack' : List String} (h : replay? stack events = some stack')
    (hdepth : search.depth = stack.length) :
    (events.foldl step search).depth = stack'.length := by
  induction events generalizing search stack with
  | nil =>
      cases h
      exact hdepth
  | cons event events ih =>
      cases event with
      | text content span => exact ih h hdepth
      | warned warning => exact ih h hdepth
      | opened tag unary =>
          cases unary with
          | true => exact ih h hdepth
          | false => exact ih h (congrArg Nat.succ hdepth)
      | closed name span =>
          -- What closes is on the stack, so one less is open and the count goes down by one.
          cases stack with
          | nil => cases h
          | cons top outer =>
              rw [replay?_closed_cons] at h
              split at h
              · refine ih h ?_
                have hless : (step search (.closed name span)).depth = search.depth - 1 := by
                  simp only [step, leave]
                  split
                  · split <;> rfl
                  · rfl
                rw [hless, hdepth]
                rfl
              · cases h

/-! ## Inside an element -/

/-- Inside an element no block starts. -/
theorem enter_of_pos (h : 0 < search.depth) (tag : StartTag) :
    search.enter tag = { search with depth := search.depth + 1 } := by
  have hdepth : (search.depth == 0) = false := by
    simpa using Nat.ne_of_gt h
  simp [enter, hdepth]

/-- Inside an element no block ends. -/
theorem leave_of_pos (h : 0 < search.depth) (span : Span) :
    leave { search with depth := search.depth + 1 } span = search := by
  have hdepth : search.depth ≠ 0 := Nat.ne_of_gt h
  rcases search with ⟨depth, start, body⟩
  cases start with
  | none => rfl
  | some start => simp [leave, hdepth]

/-- Inside an element, whatever is opened is closed again before the element is. -/
theorem foldl_of_balanced (h : Balanced events) (hdepth : 0 < search.depth) :
    events.foldl step search = search := by
  induction h generalizing search with
  | nil => rfl
  | text _ ih => exact ih hdepth
  | warned _ ih => exact ih hdepth
  | unary _ ih => exact ih hdepth
  | @element tag span inside events _ _ ihInside ih =>
      have hinside : inside.foldl step (search.enter tag) =
          { search with depth := search.depth + 1 } := by
        rw [enter_of_pos hdepth]
        exact ihInside (Nat.succ_pos _)
      calc
        (.opened tag false :: (inside ++ .closed tag.name span :: events)).foldl step search
            = events.foldl step ((inside.foldl step (search.enter tag)).leave span) := by
              rw [List.foldl_cons, List.foldl_append]
              rfl
        _ = events.foldl step search := by rw [hinside, leave_of_pos hdepth]
        _ = search := ih hdepth

/-! ## The block -/

/-- Where no block opens, the search stands as in the beginning. -/
theorem foldl_of_free (h : Balanced events) (hfree : Free events) :
    events.foldl step {} = {} := by
  induction h with
  | nil => rfl
  | @text content span events _ ih =>
      exact ih (Free.behind [.text content span] hfree (.text .nil))
  | @warned warning events _ ih =>
      exact ih (Free.behind [.warned warning] hfree (.warned .nil))
  | @unary tag events _ ih =>
      exact ih (Free.behind [.opened tag true] hfree (.unary .nil))
  | @element tag span inside events hinside _ _ ih =>
      -- The element is no block, so it is passed as a whole.
      have htag : ¬Tag.sameName tag.name "template" := fun htag => hfree [] tag _ rfl ⟨rfl, htag⟩
      have hpassed : (inside.foldl step (enter {} tag)).leave span = {} := by
        have henter : enter {} tag = { depth := 1 } := by simp [enter, htag]
        rw [henter, foldl_of_balanced hinside Nat.one_pos]
        rfl
      have hlater : Free events := by
        refine Free.behind (.opened tag false :: (inside ++ [.closed tag.name span])) ?_
          (.element hinside .nil)
        simpa using hfree
      calc
        (.opened tag false :: (inside ++ .closed tag.name span :: events)).foldl step {}
            = events.foldl step ((inside.foldl step (enter {} tag)).leave span) := by
              rw [List.foldl_cons, List.foldl_append]
              rfl
        _ = events.foldl step {} := by rw [hpassed]
        _ = {} := ih hlater

/-- What has been found is not given up. -/
theorem body_foldl (hstart : search.start = none) (hbody : search.body = some r) :
    (events.foldl step search).body = some r := by
  induction events generalizing search with
  | nil => exact hbody
  | cons event events ih =>
      suffices hnext : (step search event).start = none ∧ (step search event).body = some r from
        ih hnext.1 hnext.2
      cases event with
      | opened tag unary =>
          cases unary with
          | true => exact ⟨hstart, hbody⟩
          | false => simp [step, enter, hstart, hbody]
      | closed name span => simp [step, leave, hstart, hbody]
      | text content span => exact ⟨hstart, hbody⟩
      | warned warning => exact ⟨hstart, hbody⟩

/-- The search behind the start tag of a block. -/
def inBlock (tag : StartTag) : Search :=
  { depth := 1, start := some tag.span.stop }

/-- Behind a balanced stretch, the end event of the block is where it ends. -/
theorem body_inBlock (h : Balanced inside) :
    ((inside ++ .closed name span :: after).foldl step (inBlock tag)).body =
      some ⟨tag.span.stop, span.start⟩ := by
  have hinside : inside.foldl step (inBlock tag) = inBlock tag :=
    foldl_of_balanced h Nat.one_pos
  rw [List.foldl_append, hinside, List.foldl_cons]
  exact body_foldl rfl rfl

/-- The first start tag that opens a block is where the search goes into one. -/
theorem foldl_first (hopens : Opens before tag) (hfree : Free before) :
    (before ++ .opened tag false :: rest).foldl step {} = rest.foldl step (inBlock tag) := by
  have henter : enter {} tag = inBlock tag := by simp [enter, inBlock, hopens.2]
  rw [List.foldl_append, foldl_of_free (balanced_of_replay? hopens.1) hfree, List.foldl_cons, step,
    henter]

/-- The block that is found stands in no other element, and is the first to do so. -/
theorem exists_block (h : Balanced events) (hbody : (events.foldl step {}).body = some r) :
    ∃ before tag rest, events = before ++ .opened tag false :: rest ∧ Opens before tag ∧
      Free before ∧ (rest.foldl step (inBlock tag)).body = some r := by
  rcases free_or_opens events with hfree | ⟨before, tag, rest, rfl, hopens⟩
  · rw [foldl_of_free h hfree] at hbody
    cases hbody
  · rcases exists_first hopens rest with ⟨first, tag', rest', heq, hfirst, hfree⟩
    rw [heq] at hbody ⊢
    exact ⟨first, tag', rest', rfl, hfirst, hfree, foldl_first hfirst hfree ▸ hbody⟩

/-- In balanced events, a start tag that opens a block has an end event of its own. -/
theorem exists_end (h : Balanced (before ++ .opened tag false :: rest)) (hopens : Opens before tag) :
    ∃ inside span after, rest = inside ++ .closed tag.name span :: after ∧ Balanced inside := by
  have hreplay := h.replay? []
  rw [replay?_append, hopens.1, Option.bind_some, replay?_opened, if_neg Bool.false_ne_true]
    at hreplay
  rcases replay?_split hreplay with ⟨inside, span, after, hrest, hinside, _⟩
  exact ⟨inside, span, after, hrest, hinside⟩

/-- What is found in balanced events: the stretch between the tags of the first block. -/
theorem body_foldl_iff (h : Balanced events) :
    (events.foldl step {}).body = some r ↔
      ∃ before tag inside span after,
        events = before ++ .opened tag false :: (inside ++ .closed tag.name span :: after) ∧
        Opens before tag ∧ Free before ∧ Balanced inside ∧ r = ⟨tag.span.stop, span.start⟩ := by
  constructor
  · intro hbody
    rcases exists_block h hbody with ⟨before, tag, rest, rfl, hopens, hfree, hrest⟩
    rcases exists_end h hopens with ⟨inside, span, after, rfl, hinside⟩
    rw [body_inBlock hinside, Option.some.injEq] at hrest
    exact ⟨before, tag, inside, span, after, rfl, hopens, hfree, hinside, hrest.symm⟩
  · rintro ⟨before, tag, inside, span, after, rfl, hopens, hfree, hinside, rfl⟩
    rw [foldl_first hopens hfree]
    exact body_inBlock hinside

end Search
end Block
end TemplateMarkup
