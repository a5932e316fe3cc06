import TemplateMarkup.Proofs.Scan.Balance

/-!
# Where start events come from

Only a start tag is reported as a start event, and it is the last event of its step. So for each
start event of a reading there is a scanner in front of its tag, and what all scanners of the
reading have in common that one has too: `Scanner.Reads.at_start`.
-/

namespace TemplateMarkup
namespace Scanner

open Event

variable {s next : Scanner} {events before after : List Event} {tag : StartTag} {unary : Bool}

theorem Closes.opened_not_mem {span : Span} {closing : List OpenTag}
    (h : Closes span closing events) (tag : StartTag) (unary : Bool) :
    .opened tag unary ∉ events := by
  induction h with
  | nil => simp
  | own _ ih => simpa using ih
  | warned _ ih => simpa using ih

theorem opened_not_mem_closeNamed (name : String) (span : Span) (opened : List OpenTag)
    (tag : StartTag) (unary : Bool) : .opened tag unary ∉ (closeNamed name span opened).1 := by
  rcases closes_closeNamed name span opened with ⟨closing, _, hcloses, _⟩
  exact hcloses.opened_not_mem tag unary

theorem opened_not_mem_closeRest (size : Nat) (opened : List OpenTag) (tag : StartTag)
    (unary : Bool) : .opened tag unary ∉ closeRest size opened :=
  (closes_closeAll _ _).opened_not_mem tag unary

theorem opened_not_mem_rawEvents (name : String) (body : List Char) (span : Span)
    (tag : StartTag) (unary : Bool) : .opened tag unary ∉ rawEvents name body span := by
  unfold rawEvents
  split
  · simp
  · simp

theorem opened_not_mem_malformed (c : Cursor) (tag : StartTag) (unary : Bool) :
    .opened tag unary ∉ malformed c := by
  simp [malformed]

/-- A step that reports a start event reads its tag and reports nothing behind it. -/
theorem Step.at_start (h : Step s events next)
    (hsplit : events = before ++ .opened tag unary :: after) :
    after = [] ∧ unary = isUnary tag ∧
      replay? (names s.opened) before = some (names (remaining tag s.opened)) ∧
      ∃ stop, StartTag.read? s.cursor = some (tag, stop) ∧
        next = ⟨dropNewline tag stop, openedBy tag s.opened⟩ := by
  have hmem : .opened tag unary ∈ events := by simp [hsplit]
  cases h with
  | declaration _ _ => cases hmem
  | endTag _ _ _ => exact absurd hmem (opened_not_mem_closeNamed _ _ _ tag unary)
  | text _ _ _ _ _ _ => simp at hmem
  | rawRest _ _ => exact absurd hmem (opened_not_mem_rawEvents _ _ _ tag unary)
  | rawEnded _ _ _ _ =>
      rcases List.mem_append.1 hmem with hraw | hclosed
      · exact absurd hraw (opened_not_mem_rawEvents _ _ _ tag unary)
      · exact absurd hclosed (opened_not_mem_closeNamed _ _ _ tag unary)
  | @startTag tag' stop _ _ _ hstart =>
      rcases closes_openTag tag' stop s.opened with ⟨closing, ended, hopened, hcloses, heq⟩
      have hended := hcloses.replay (remaining tag' s.opened)
      rw [← hopened] at hended
      rw [heq] at hsplit
      -- The start event is none of those in front of the last one.
      rcases List.eq_nil_or_concat after with rfl | ⟨front, last, rfl⟩
      · obtain ⟨rfl, hlast⟩ := List.append_inj' hsplit rfl
        cases hlast
        exact ⟨rfl, rfl, hended, stop, hstart, congrArg Prod.snd heq⟩
      · rw [List.concat_eq_append, ← List.cons_append, ← List.append_assoc] at hsplit
        obtain ⟨rfl, _⟩ := List.append_inj' hsplit rfl
        exact absurd (by simp) (hcloses.opened_not_mem tag unary)

/-- For each start event there is a scanner in front of its tag. -/
theorem Reads.at_start {P : Scanner → Prop}
    (hP : ∀ {s events next}, P s → Step s events next → P next) (h : Reads s events) (hs : P s)
    (hsplit : events = before ++ .opened tag unary :: after) :
    ∃ t stop, P t ∧ StartTag.read? t.cursor = some (tag, stop) ∧ unary = isUnary tag ∧
      replay? (names s.opened) before = some (names (remaining tag t.opened)) ∧
      Reads ⟨dropNewline tag stop, openedBy tag t.opened⟩ after := by
  induction h generalizing before with
  | @done s _ =>
      have hmem : .opened tag unary ∈ closeRest s.cursor.offset s.opened := by simp [hsplit]
      exact absurd hmem (opened_not_mem_closeRest _ _ tag unary)
  | @malformed s _ _ =>
      have hmem : .opened tag unary ∈ Scanner.malformed s.cursor ++
          closeRest (s.cursor.advance s.cursor.rest []).offset s.opened := by
        simp [hsplit]
      rcases List.mem_append.1 hmem with hmem | hmem
      · exact absurd hmem (opened_not_mem_malformed _ tag unary)
      · exact absurd hmem (opened_not_mem_closeRest _ _ tag unary)
  | @step s next events more _ hstep hreads ih =>
      -- The start event belongs to this step or to what follows it.
      rcases List.append_eq_append_iff.1 hsplit with ⟨later, rfl, hlater⟩ | ⟨own, rfl, hown⟩
      · rcases ih (hP hs hstep) hlater with ⟨t, stop, ht, hread, hunary, hreplay, hmore⟩
        refine ⟨t, stop, ht, hread, hunary, ?_, hmore⟩
        rw [replay?_append, hstep.replay]
        exact hreplay
      · cases own with
        | nil =>
            have hmore : more = [] ++ .opened tag unary :: after := hown.symm
            rcases ih (hP hs hstep) hmore with ⟨t, stop, ht, hread, hunary, hreplay, hmore⟩
            refine ⟨t, stop, ht, hread, hunary, ?_, hmore⟩
            rw [List.append_nil] at hstep
            rw [hstep.replay]
            exact hreplay
        | cons event own =>
            obtain ⟨rfl, hrest⟩ := List.cons.inj hown
            rcases hstep.at_start rfl with ⟨rfl, hunary, hreplay, stop, hread, rfl⟩
            have hmore : after = more := hrest
            exact ⟨s, stop, hs, hread, hunary, hreplay, hmore ▸ hreads⟩

end Scanner
end TemplateMarkup
