import TemplateMarkup.Event.Scan

/-!
# Readings as relations

`Scanner.step?` and `Scanner.run` compute. For reasoning it is useful to have what they do as
relations, one constructor for each thing that can happen. This file defines:

* `Scanner.Step s events next` — one step from `s` reports `events` and goes on at `next`,
* `Scanner.Reads s events` — reading from `s` to the end of the source reports `events`,

and ties both to the functions: `Scanner.step_iff`, `Scanner.reads_iff`, `reads_scan`.
-/

namespace TemplateMarkup
namespace Scanner

variable {s next : Scanner} {events more : List Event}

/-! ## One step -/

/-- Everything that one step can do. -/
inductive Step (s : Scanner) : List Event → Scanner → Prop where
  | declaration {taken rest : List Char} :
      rawName? s.opened = none →
      Declaration.read? s.cursor.rest = some (taken, rest) →
      Step s [] { s with cursor := s.cursor.advance taken rest }
  | endTag {tag : EndTag} {after : Cursor} :
      rawName? s.opened = none →
      Declaration.read? s.cursor.rest = none →
      EndTag.read? s.cursor = some (tag, after) →
      Step s (closeNamed tag.name tag.span s.opened).1
        ⟨after, (closeNamed tag.name tag.span s.opened).2⟩
  | startTag {tag : StartTag} {after : Cursor} :
      rawName? s.opened = none →
      Declaration.read? s.cursor.rest = none →
      EndTag.read? s.cursor = none →
      StartTag.read? s.cursor = some (tag, after) →
      Step s (openTag tag after s.opened).1 (openTag tag after s.opened).2
  | text {run rest : List Char} :
      rawName? s.opened = none →
      Declaration.read? s.cursor.rest = none →
      EndTag.read? s.cursor = none →
      StartTag.read? s.cursor = none →
      textOnto [] s.cursor.rest = (run, rest) →
      run ≠ [] →
      Step s
        [.text (String.ofList run) ⟨s.cursor.offset, (s.cursor.advance run rest).offset⟩]
        { s with cursor := s.cursor.advance run rest }
  /-- Raw content without an end tag runs to the end of the source. -/
  | rawRest {name : String} :
      rawName? s.opened = some name →
      RawText.end? name s.cursor.rest = none →
      Step s
        (rawEvents name s.cursor.rest
          ⟨s.cursor.offset, (s.cursor.advance s.cursor.rest []).offset⟩)
        { s with cursor := s.cursor.advance s.cursor.rest [] }
  | rawEnded {name : String} {ended : RawText.Ended} {stop after : Cursor} :
      rawName? s.opened = some name →
      RawText.end? name s.cursor.rest = some ended →
      stop = s.cursor.advance ended.body (ended.endTag ++ ended.rest) →
      after = stop.advance ended.endTag ended.rest →
      Step s
        (rawEvents name ended.body ⟨s.cursor.offset, stop.offset⟩ ++
          (closeNamed name ⟨stop.offset, after.offset⟩ s.opened).1)
        ⟨after, (closeNamed name ⟨stop.offset, after.offset⟩ s.opened).2⟩

theorem readText?_eq_some_iff :
    readText? s = some (events, next) ↔
      ∃ run rest, textOnto [] s.cursor.rest = (run, rest) ∧ run ≠ [] ∧
        events = [.text (String.ofList run)
          ⟨s.cursor.offset, (s.cursor.advance run rest).offset⟩] ∧
        next = { s with cursor := s.cursor.advance run rest } := by
  unfold readText?
  split
  · next rest htext => simp [htext]
  · next run rest hrun htext =>
      simp only [htext, Option.some.injEq, Prod.mk.injEq]
      constructor
      · rintro ⟨rfl, rfl⟩
        exact ⟨run, rest, ⟨rfl, rfl⟩, fun h => hrun h, rfl, rfl⟩
      · rintro ⟨_, _, ⟨rfl, rfl⟩, _, rfl, rfl⟩
        exact ⟨rfl, rfl⟩

theorem Step.of_step? (h : step? s = some (events, next)) : Step s events next := by
  -- The cases are the branches of the function, in its order.
  unfold step? at h
  split at h
  · next name hraw =>
      unfold readRaw at h
      split at h
      · next hend =>
          cases h
          exact .rawRest hraw hend
      · next ended hend =>
          cases h
          exact .rawEnded hraw hend rfl rfl
  · next hraw =>
      unfold readMarkup? at h
      split at h
      · next taken rest hdecl =>
          cases h
          exact .declaration hraw hdecl
      · next hdecl =>
          split at h
          · next tag after hend =>
              cases h
              exact .endTag hraw hdecl hend
          · next hend =>
              split at h
              · next tag after hstart =>
                  cases h
                  exact .startTag hraw hdecl hend hstart
              · next hstart =>
                  rcases readText?_eq_some_iff.1 h with ⟨run, rest, htext, hrun, rfl, rfl⟩
                  exact .text hraw hdecl hend hstart htext hrun

/-- The relation and the step function agree. -/
theorem step_iff : Step s events next ↔ step? s = some (events, next) := by
  refine ⟨fun h => ?_, Step.of_step?⟩
  cases h with
  | declaration hraw hdecl => simp [step?, readMarkup?, hraw, hdecl]
  | endTag hraw hdecl hend => simp [step?, readMarkup?, hraw, hdecl, hend]
  | startTag hraw hdecl hend hstart => simp [step?, readMarkup?, hraw, hdecl, hend, hstart]
  | text hraw hdecl hend hstart htext hrun =>
      have hread := readText?_eq_some_iff.2 ⟨_, _, htext, hrun, rfl, rfl⟩
      simp [step?, readMarkup?, hraw, hdecl, hend, hstart, hread]
  | rawRest hraw hend => simp [step?, readRaw, hraw, hend]
  | rawEnded hraw hend hstop hafter => simp [step?, readRaw, hraw, hend, hstop, hafter]

/-! ## The whole reading -/

/-- Everything that can happen from a place in the source to its end. -/
inductive Reads : Scanner → List Event → Prop where
  | done {s : Scanner} :
      s.cursor.rest = [] → Reads s (closeRest s.cursor.offset s.opened)
  | step {s next : Scanner} {events more : List Event} :
      s.cursor.rest ≠ [] → Step s events next → Reads next more → Reads s (events ++ more)
  | malformed {s : Scanner} :
      s.cursor.rest ≠ [] → step? s = none →
      Reads s (malformed s.cursor ++
        closeRest (s.cursor.advance s.cursor.rest []).offset s.opened)

/-- The accumulator is only ever appended to. -/
theorem Reads.run_toList (h : Reads s events) (out : Array Event) :
    (s.run out).toList = out.toList ++ events := by
  induction h generalizing out with
  | done hrest =>
      rw [run, dif_pos hrest]
      simp
  | step hrest hstep _ ih =>
      rw [run, dif_neg hrest]
      split
      · next heq =>
          rw [step_iff.1 hstep] at heq
          cases heq
          simp [ih]
      · next heq => simp [step_iff.1 hstep] at heq
  | malformed hrest hnone =>
      rw [run, dif_neg hrest]
      split
      · next heq => simp [hnone] at heq
      · simp

theorem exists_reads (s : Scanner) : ∃ events, Reads s events := by
  induction hn : s.cursor.rest.length using Nat.strongRecOn generalizing s with
  | ind n ih =>
      by_cases hrest : s.cursor.rest = []
      · exact ⟨_, .done hrest⟩
      · -- A step leaves less to read, so the hypothesis covers what is behind it.
        cases hstep : step? s with
        | none => exact ⟨_, .malformed hrest hstep⟩
        | some result =>
            rcases result with ⟨events, next⟩
            have hlt : next.cursor.rest.length < n := hn ▸ step?_length hrest hstep
            rcases ih _ hlt next rfl with ⟨more, hmore⟩
            exact ⟨_, .step hrest (.of_step? hstep) hmore⟩

/-- The relation and the run agree. -/
theorem reads_iff : Reads s events ↔ (s.run #[]).toList = events := by
  constructor
  · intro h
    simpa using h.run_toList #[]
  · rintro rfl
    -- Some events are read, and `run` collects just those.
    rcases exists_reads s with ⟨events, h⟩
    rw [h.run_toList]
    simpa using h

end Scanner

theorem reads_scan (source : String) : (Scanner.ofText source).Reads (scan source) :=
  Scanner.reads_iff.2 rfl

end TemplateMarkup
