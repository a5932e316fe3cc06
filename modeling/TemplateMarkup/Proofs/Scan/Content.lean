import TemplateMarkup.Proofs.Scan.Account
import TemplateMarkup.Proofs.Scan.Excerpt

/-!
# The content of an element

Inside the outermost open element a scanner reads the content of that element, up to its end tag or
to the end of the source. This file defines:

* `Scanner.Fills block tail s content events left` — from `s` on, `content` is left of the content
  of `block`, and `tail` follows it; reading it reports `events`, and `left` is open behind it,
* `Scanner.Ending block offset tail span missing` — what closes `block` at `offset`.

Every reading from inside `block` consists of these two and of what follows (`Reads.fills`), and the
content on its own is read in the same way (`Fills.reads`).
-/

namespace TemplateMarkup
namespace Scanner

variable {delta offset : Nat} {block : OpenTag} {tail content : List Char} {s s' next : Scanner}
  {events missing : List Event} {name : String} {span : Span} {inner left : List OpenTag}

/-! ## Steps and malformed markup -/

theorem Step.exists_taken (h : Step s events next) (hrest : s.cursor.rest ≠ []) :
    ∃ taken, taken ≠ [] ∧ s.cursor.Takes taken next.cursor := by
  rcases h.takes with ⟨taken, htakes⟩
  refine ⟨taken, ?_, htakes⟩
  rintro rfl
  have hlt := step?_length hrest (step_iff.1 h)
  rw [htakes.rest_eq] at hlt
  exact absurd hlt (Nat.lt_irrefl _)

/-- At malformed markup nothing can be read. -/
theorem step?_eq_none_iff :
    step? s = none ↔
      rawName? s.opened = none ∧ Declaration.read? s.cursor.rest = none ∧
        EndTag.read? s.cursor = none ∧ StartTag.read? s.cursor = none ∧
        (textOnto [] s.cursor.rest).1 = [] := by
  have htext : readText? s = none ↔ (textOnto [] s.cursor.rest).1 = [] := by
    unfold readText?
    split
    · next heq => simp [heq]
    · next run rest hrun heq => simpa [heq] using fun h => hrun h
  unfold step? readMarkup?
  split
  · next hraw => simp [hraw]
  · next hraw =>
      split
      · next hdecl => simp [hdecl]
      · next hdecl =>
          split
          · next hend => simp [hend]
          · next hend =>
              split
              · next hstart => simp [hstart]
              · next hstart => simp [hraw, hdecl, hend, hstart, htext]

/-- Where the excerpt ends with the source, malformed markup is malformed in it too. -/
theorem Excerpt.step?_eq_none (h : Excerpt delta block [] s s') (hnone : step? s = none) :
    step? s' = none := by
  rcases step?_eq_none_iff.1 hnone with ⟨hraw, hdecl, hend, hstart, htext⟩
  have hrest : s.cursor.rest = s'.cursor.rest := by
    rw [h.cursor.rest_eq, List.append_nil]
  rw [hrest] at hdecl htext
  exact step?_eq_none_iff.2 ⟨rawName?_excerpt h ▸ hraw, hdecl, h.cursor.endTag_eq_none hend,
    h.cursor.startTag_eq_none hstart, htext⟩

/-! ## What closes an element -/

/-- An end tag closes the outermost element only if it has its name and nothing inside has it. -/
theorem closeNamed_outermost (name : String) (span : Span) (inner : List OpenTag)
    (block : OpenTag) :
    (∃ inner', (closeNamed name span (inner ++ [block])).2 = inner' ++ [block]) ∨
      ((∀ tag ∈ inner, Tag.sameName tag.name name = false) ∧ Tag.sameName block.name name ∧
        closeNamed name span (inner ++ [block]) =
          (inner.flatMap (closeMissing span) ++ [.closed block.name span], [])) := by
  rcases exists_innermost name inner with hnone | ⟨front, target, outer, rfl, hfront, htarget⟩
  · cases hblock : Tag.sameName block.name name with
    | true => exact .inr ⟨hnone, rfl, closeNamed_of_innermost hnone hblock⟩
    | false =>
        have hall : ∀ tag ∈ inner ++ [block], Tag.sameName tag.name name = false :=
          List.forall_mem_append.2 ⟨hnone, by simpa using hblock⟩
        exact .inl ⟨inner, by rw [closeNamed_of_none hall]⟩
  · refine .inl ⟨outer, ?_⟩
    rw [List.append_assoc, List.cons_append, closeNamed_of_innermost hfront htarget]

theorem closeBefore_outermost {ends : OpenTag → Bool} (hblock : ends block = false)
    (tag : StartTag) (inner : List OpenTag) :
    ∃ inner', (closeBefore tag ends (inner ++ [block])).2 = inner' ++ [block] := by
  cases inner with
  | nil => exact ⟨[], by simp [closeBefore, hblock]⟩
  | cons around outer =>
      cases haround : ends around with
      | true => exact ⟨outer, by simp [closeBefore, haround]⟩
      | false => exact ⟨around :: outer, by simp [closeBefore, haround]⟩

theorem openTag_outermost (hlasting : Lasting block) (tag : StartTag) (after : Cursor)
    (inner : List OpenTag) :
    ∃ inner', (openTag tag after (inner ++ [block])).2.opened = inner' ++ [block] := by
  rcases closeBefore_outermost (hlasting.not_ended tag).1 tag inner with ⟨first, hfirst⟩
  rcases closeBefore_outermost (hlasting.not_ended tag).2 tag first with ⟨second, hsecond⟩
  simp only [openTag, hfirst, hsecond]
  cases isUnary tag with
  | true => exact ⟨second, rfl⟩
  | false => exact ⟨⟨tag.name, tag.span⟩ :: second, rfl⟩

/-- What closes the outermost element is an end tag of its name. -/
theorem Step.outermost (h : Step s events next) (hlasting : Lasting block)
    (hopened : s.opened = inner ++ [block]) :
    (∃ inner', next.opened = inner' ++ [block]) ∨
      ∃ name trailing, EndTag.Written name trailing ∧
        Tag.sameName block.name (String.ofList name) ∧
        s.cursor.Takes (EndTag.chars name trailing) next.cursor ∧
        events = inner.flatMap (closeMissing ⟨s.cursor.offset, next.cursor.offset⟩) ++
          [.closed block.name ⟨s.cursor.offset, next.cursor.offset⟩] := by
  cases h with
  | declaration _ _ => exact .inl ⟨inner, hopened⟩
  | text _ _ _ _ _ _ => exact .inl ⟨inner, hopened⟩
  | rawRest _ _ => exact .inl ⟨inner, hopened⟩
  | @startTag tag after _ _ _ _ =>
      rw [hopened]
      exact .inl (openTag_outermost hlasting tag after inner)
  | endTag _ _ hend =>
      rcases EndTag.read?_eq_some_iff.1 hend with ⟨name, trailing, hwritten, htakes, rfl⟩
      rw [hopened]
      rcases closeNamed_outermost (String.ofList name) ⟨s.cursor.offset, _⟩ inner block with
        hkept | ⟨_, hblock, heq⟩
      · exact .inl hkept
      · exact .inr ⟨name, trailing, hwritten, hblock, htakes, congrArg Prod.fst heq⟩
  | @rawEnded name ended stop after hraw _ _ _ =>
      rw [hopened]
      rcases closeNamed_outermost name ⟨stop.offset, after.offset⟩ inner block with
        hkept | ⟨hnone, _, _⟩
      · exact .inl hkept
      · -- Raw content stands in an element of its own name, inside `block`.
        exfalso
        rw [hopened] at hraw
        cases inner with
        | nil => simp [rawName?, hlasting.not_raw] at hraw
        | cons tag outer =>
            simp only [rawName?, List.cons_append] at hraw
            split at hraw
            · next hrawText =>
                cases hraw
                have hsame := hnone tag List.mem_cons_self
                rw [sameName_toLower hrawText] at hsame
                cases hsame
            · cases hraw

/-! ## Content -/

/-- From `s` on, `content` is left of the content of `block`, with `tail` behind it. -/
inductive Fills (block : OpenTag) (tail : List Char) :
    Scanner → List Char → List Event → List OpenTag → Prop where
  | ended {s : Scanner} {left : List OpenTag} :
      s.opened = left ++ [block] → s.cursor.rest = tail → Fills block tail s [] [] left
  | step {s next : Scanner} {inner left : List OpenTag} {taken content : List Char}
      {events more : List Event} :
      s.opened = inner ++ [block] → Step s events next → taken ≠ [] →
      s.cursor.Takes taken next.cursor → Fills block tail next content more left →
      Fills block tail s (taken ++ content) (events ++ more) left
  | malformed {s : Scanner} {left : List OpenTag} :
      s.opened = left ++ [block] → tail = [] → s.cursor.rest ≠ [] → step? s = none →
      Fills block tail s s.cursor.rest (malformed s.cursor) left

theorem Fills.opened_eq (h : Fills block tail s content events left) :
    ∃ inner, s.opened = inner ++ [block] := by
  cases h with
  | ended hopened _ => exact ⟨_, hopened⟩
  | step hopened _ _ _ _ => exact ⟨_, hopened⟩
  | malformed hopened _ _ _ => exact ⟨_, hopened⟩

theorem Fills.rest_eq (h : Fills block tail s content events left) :
    s.cursor.rest = content ++ tail := by
  induction h with
  | ended _ hrest => exact hrest
  | step _ _ _ htakes _ ih => rw [htakes.rest_eq, ih, List.append_assoc]
  | malformed _ htail _ _ => rw [htail, List.append_nil]

/-- An end tag in the content ends in it. -/
theorem Fills.endsInside (h : Fills block tail s content events left) (hne : content ≠ [])
    (hraw : rawName? s.opened = none) : EndsInside tail s.cursor.rest := by
  intro name trailing behind hwritten hrest
  have hdecl : Declaration.read? s.cursor.rest = none := by
    refine Declaration.read?_eq_none fun rest heq => ?_
    rw [hrest] at heq
    simp [EndTag.chars] at heq
  have hend := EndTag.read?_eq_some_iff.2
    ⟨name, trailing, hwritten, Cursor.takes_advance hrest, rfl⟩
  -- The end tag is what the scanner reads next.
  have hstep := step_iff.1 (Step.endTag hraw hdecl hend)
  cases h with
  | ended _ _ => exact absurd rfl hne
  | @step _ next _ _ _ content _ _ _ hnext _ _ hfills =>
      have heq := hstep.symm.trans (step_iff.1 hnext)
      have hcursor : s.cursor.advance (EndTag.chars name trailing) behind = next.cursor :=
        congrArg Scanner.cursor (Prod.mk.inj (Option.some.inj heq)).2
      refine ⟨content, ?_⟩
      rw [← hfills.rest_eq, ← hcursor]
      rfl
  | malformed _ _ _ hnone =>
      rw [hnone] at hstep
      cases hstep

/-- The content on its own is read like in its place, but what is left open is closed by the end of
it. -/
theorem Fills.reads (h : Fills block tail s content events left)
    (hexcerpt : Excerpt delta block tail s s') :
    ∃ events' left',
      Reads s' (events' ++ closeRest (s'.cursor.offset + Text.byteLength content) left') ∧
        events = events'.map (Event.shift delta) ∧ left = left'.map (OpenTag.shift delta) := by
  -- Step by step, the second scanner stays where the first one is.
  induction h generalizing s' with
  | @ended s left hopened hrest =>
      have hnil : s'.cursor.rest = [] := by
        have heq := hexcerpt.cursor.rest_eq
        rw [hrest] at heq
        exact List.self_eq_append_left.1 heq
      have hleft : left = s'.opened.map (OpenTag.shift delta) :=
        List.append_cancel_right (hopened.symm.trans hexcerpt.opened_eq)
      exact ⟨[], s'.opened, .done hnil, rfl, hleft⟩
  | @step s next inner left taken content events more _ hstep htaken htakes hfills ih =>
      rcases hfills.opened_eq with ⟨inner', hinner'⟩
      have hkept : next.opened ≠ [] := by simp [hinner']
      rcases hstep.excerpt hexcerpt hfills.rest_eq hkept hfills.endsInside with
        ⟨events', next', hstep', rfl, hnext⟩
      rcases ih hnext with ⟨more', left', hreads, rfl, rfl⟩
      have hrest := (hexcerpt.cursor.takes htakes hfills.rest_eq).1
      have hne : s'.cursor.rest ≠ [] := by
        rw [hrest]
        exact List.append_ne_nil_of_left_ne_nil htaken content
      have hoffset : next'.cursor.offset = s'.cursor.offset + Text.byteLength taken := by
        have hnextOffset := hnext.cursor.offset_eq
        rw [htakes.offset_eq, hexcerpt.cursor.offset_eq] at hnextOffset
        omega
      refine ⟨events' ++ more', left', ?_, by simp, rfl⟩
      rw [Text.byteLength_append, ← Nat.add_assoc, ← hoffset, List.append_assoc]
      exact .step hne hstep' hreads
  | @malformed s left hopened htail hrest hnone =>
      subst htail
      have hsame : s.cursor.rest = s'.cursor.rest := by
        rw [hexcerpt.cursor.rest_eq, List.append_nil]
      have hleft : left = s'.opened.map (OpenTag.shift delta) :=
        List.append_cancel_right (hopened.symm.trans hexcerpt.opened_eq)
      refine ⟨Scanner.malformed s'.cursor, s'.opened, ?_, ?_, hleft⟩
      · rw [hsame] at hrest ⊢
        exact .malformed hrest (hexcerpt.step?_eq_none hnone)
      · have hoffset := hexcerpt.cursor.offset_eq
        simp only [Scanner.malformed, hsame, Cursor.advance, hoffset, List.map_cons, List.map_nil,
          Event.shift, Warning.shift, Span.shift, Nat.add_right_comm]

/-! ## The end of the content -/

/-- `block` is closed at `offset`, where `tail` is left: by an end tag of its name, or by the end of
the source, with a warning. -/
inductive Ending (block : OpenTag) (offset : Nat) : List Char → Span → List Event → Prop where
  | own {name trailing rest : List Char} :
      EndTag.Written name trailing → Tag.sameName block.name (String.ofList name) →
      Ending block offset (EndTag.chars name trailing ++ rest)
        ⟨offset, offset + Text.byteLength (EndTag.chars name trailing)⟩ []
  | missing :
      Ending block offset [] (.empty offset) [.warned ⟨.missingEndTag block.name, block.span⟩]

theorem Ending.follows (h : Ending block offset tail span missing) : Follows tail := by
  cases h with
  | own _ _ => exact .inr ⟨_, rfl⟩
  | missing => exact .inl rfl

theorem Ending.start_eq (h : Ending block offset tail span missing) : span.start = offset := by
  cases h with
  | own _ _ => rfl
  | missing => rfl

theorem closeRest_outermost (size : Nat) (inner : List OpenTag) (block : OpenTag) :
    closeRest size (inner ++ [block]) =
      inner.flatMap (closeMissing (.empty size)) ++
        [.warned ⟨.missingEndTag block.name, block.span⟩] ++
        [.closed block.name (.empty size)] := by
  simp [closeRest, closeMissing]

/-- A reading from inside `block` reads the content of `block` first, then closes it. -/
theorem Reads.fills (h : Reads s events) (hlasting : Lasting block)
    (hopened : s.opened = inner ++ [block]) :
    ∃ content tail shared left span missing after,
      Fills block tail s content shared left ∧
      Ending block (s.cursor.offset + Text.byteLength content) tail span missing ∧
      events = shared ++ (left.flatMap (closeMissing span) ++ missing) ++
        .closed block.name span :: after := by
  -- By induction on the reading: the steps that leave `block` open belong to its content.
  induction h generalizing inner with
  | done hrest =>
      refine ⟨[], [], [], inner, _, _, [], .ended hopened hrest, .missing, ?_⟩
      rw [hopened]
      exact closeRest_outermost _ inner block
  | @malformed s hrest hnone =>
      refine ⟨s.cursor.rest, [], Scanner.malformed s.cursor, inner, _, _, [],
        .malformed hopened rfl hrest hnone, .missing, ?_⟩
      simp [hopened, closeRest_outermost, Cursor.advance]
  | @step s next events more hrest hstep _ ih =>
      rcases hstep.outermost hlasting hopened with
        ⟨inner', hinner'⟩ | ⟨name, trailing, hwritten, hsame, htakes, rfl⟩
      · rcases ih hinner' with
          ⟨content, tail, shared, left, span, missing, after, hfills, hending, rfl⟩
        rcases hstep.exists_taken hrest with ⟨taken, htaken, htakes⟩
        refine ⟨taken ++ content, tail, events ++ shared, left, span, missing, after,
          .step hopened hstep htaken htakes hfills, ?_, by simp⟩
        rw [Text.byteLength_append, ← Nat.add_assoc, ← htakes.offset_eq]
        exact hending
      · -- The end tag of `block` itself: there is no content left.
        refine ⟨[], s.cursor.rest, [], inner, _, [], more, .ended hopened rfl, ?_, by simp; rfl⟩
        rw [htakes.rest_eq, htakes.offset_eq]
        exact .own hwritten hsame

end Scanner
end TemplateMarkup
