import Mathlib.Data.List.Forall2
import TemplateMarkup.Proofs.Scan.Closing
import TemplateMarkup.Proofs.Scan.Reading
import TemplateMarkup.Proofs.Tag.Spelled

/-!
# Reading an excerpt

The content of an element can be cut out of a source and be read on its own. This file compares two
scanners, one in the source and one at the same place in the excerpt:

* `Event.shift` — the same event in a source that has more bytes in front,
* `Cursor.Excerpt delta tail c c'` — the excerpt starts `delta` bytes into the source and ends where
  `tail` is left of it,
* `Scanner.Excerpt delta block tail s s'` — moreover, what is open in the source is what is open in
  the excerpt and, around that, `block`,
* `Scanner.Repeats`, `Scanner.Step.excerpt` — a step of `s` that neither passes the end of the
  excerpt nor closes `block` is a step of `s'`, but for the offsets.

A reader sees more of the source than of the excerpt. What it reads is the same as long as it stops
inside; the one reader that looks ahead without reading is that of text, which stops in front of an
end tag.
-/

namespace TemplateMarkup

/-! ## Shifting events -/

/-- The same event in a source that has `delta` more bytes in front. -/
def Event.shift (delta : Nat) : Event → Event
  | .opened tag unary => .opened (tag.shift delta) unary
  | .closed name span => .closed name (span.shift delta)
  | .text content span => .text content (span.shift delta)
  | .warned warning => .warned (warning.shift delta)

/-- The same open element in a source that has `delta` more bytes in front. -/
def OpenTag.shift (delta : Nat) (tag : OpenTag) : OpenTag :=
  { tag with span := tag.span.shift delta }

@[simp] theorem OpenTag.shift_name (delta : Nat) (tag : OpenTag) :
    (tag.shift delta).name = tag.name := rfl

/-! ## Cursors -/

namespace Cursor

variable {delta : Nat} {tail taken rest : List Char} {c c' d d' : Cursor}

/-- `c` stands in a source where `c'` stands in an excerpt of it. -/
structure Excerpt (delta : Nat) (tail : List Char) (c c' : Cursor) : Prop where
  offset_eq : c.offset = c'.offset + delta
  rest_eq : c.rest = c'.rest ++ tail

/-- What is read in the source, up to a place inside, stands in the excerpt as well. -/
theorem Excerpt.takes (h : Excerpt delta tail c c') (htakes : c.Takes taken d)
    (hd : d.rest = rest ++ tail) :
    c'.rest = taken ++ rest ∧ Excerpt delta tail d (c'.advance taken rest) := by
  have hrest : c'.rest ++ tail = (taken ++ rest) ++ tail := by
    rw [← h.rest_eq, htakes.rest_eq, hd, List.append_assoc]
  refine ⟨List.append_cancel_right hrest, ?_, hd⟩
  rw [htakes.offset_eq, h.offset_eq]
  exact Nat.add_right_comm _ _ _

theorem Excerpt.span_eq (h : Excerpt delta tail c c') (hd : Excerpt delta tail d d') :
    (⟨c.offset, d.offset⟩ : Span) = Span.shift delta ⟨c'.offset, d'.offset⟩ := by
  rw [h.offset_eq, hd.offset_eq]
  rfl

end Cursor

/-! ## Markup in front of the end of an excerpt -/

namespace Declaration

theorem read?_append_eq_none {cs tail : List Char} (h : read? (cs ++ tail) = none) :
    read? cs = none := by
  rw [Option.eq_none_iff_forall_ne_some] at h ⊢
  rintro ⟨taken, rest⟩ hread
  rcases read?_eq_some_iff.1 hread with ⟨hcomplete, rfl⟩
  exact h (taken, rest ++ tail) (read?_eq_some_iff.2 ⟨hcomplete, List.append_assoc _ _ _⟩)

theorem starts_iff {cs : List Char} :
    starts cs ↔ "<!--".toList <+: cs ∨ "<![".toList <+: cs := by
  have hsome (lead : List Char) : (Text.after? lead cs).isSome ↔ lead <+: cs := by
    rw [Option.isSome_iff_exists]
    constructor
    · rintro ⟨rest, hrest⟩
      exact ⟨rest, (Text.after?_eq_some hrest).symm⟩
    · rintro ⟨rest, rfl⟩
      exact ⟨rest, Text.after?_append lead rest⟩
  simp [starts, hsome]

end Declaration

namespace Cursor.Excerpt

variable {delta : Nat} {tail : List Char} {c c' : Cursor}

theorem endTag_eq_none (h : Excerpt delta tail c c') (hend : EndTag.read? c = none) :
    EndTag.read? c' = none := by
  rw [Option.eq_none_iff_forall_ne_some] at hend ⊢
  rintro ⟨tag, last⟩ hread
  rcases EndTag.read?_eq_some_iff.1 hread with ⟨name, trailing, hwritten, htakes, _⟩
  have hrest : c.rest = EndTag.chars name trailing ++ (last.rest ++ tail) := by
    rw [h.rest_eq, htakes.rest_eq, List.append_assoc]
  exact hend (_, _)
    (EndTag.read?_eq_some_iff.2 ⟨name, trailing, hwritten, takes_advance hrest, rfl⟩)

theorem startTag_eq_none (h : Excerpt delta tail c c') (hstart : StartTag.read? c = none) :
    StartTag.read? c' = none := by
  rw [Option.eq_none_iff_forall_ne_some] at hstart ⊢
  rintro ⟨tag, last⟩ hread
  rcases StartTag.read?_spelled hread with ⟨taken, written, htakes, _, hspelled⟩
  have hread' := hspelled c.offset (last.rest ++ tail)
  rw [← List.append_assoc, ← htakes.rest_eq, ← h.rest_eq] at hread'
  exact hstart _ hread'

/-- An end tag that ends inside is the same in the excerpt. -/
theorem endTag_eq_some {tag : EndTag} {after : Cursor} {rest : List Char}
    (h : Excerpt delta tail c c') (hend : EndTag.read? c = some (tag, after))
    (hafter : after.rest = rest ++ tail) :
    ∃ tag' after', EndTag.read? c' = some (tag', after') ∧ tag.name = tag'.name ∧
      tag.span = tag'.span.shift delta ∧ Excerpt delta tail after after' := by
  rcases EndTag.read?_eq_some_iff.1 hend with ⟨name, trailing, hwritten, htakes, rfl⟩
  rcases h.takes htakes hafter with ⟨hrest, hexcerpt⟩
  exact ⟨_, _, EndTag.read?_eq_some_iff.2 ⟨name, trailing, hwritten, takes_advance hrest, rfl⟩,
    rfl, h.span_eq hexcerpt, hexcerpt⟩

/-- A start tag that ends inside is the same in the excerpt. -/
theorem startTag_eq_some {tag : StartTag} {after : Cursor} {rest : List Char}
    (h : Excerpt delta tail c c') (hstart : StartTag.read? c = some (tag, after))
    (hafter : after.rest = rest ++ tail) :
    ∃ tag' after', StartTag.read? c' = some (tag', after') ∧ tag = tag'.shift delta ∧
      Excerpt delta tail after after' := by
  rcases StartTag.read?_spelled hstart with ⟨taken, written, htakes, rfl, hspelled⟩
  rcases h.takes htakes hafter with ⟨hrest, hexcerpt⟩
  have hread := hspelled c'.offset rest
  rw [← hrest] at hread
  refine ⟨_, _, hread, ?_, hexcerpt⟩
  rw [StartTag.shift_shift, h.offset_eq]

end Cursor.Excerpt

/-! ## Text -/

namespace Scanner

variable {delta : Nat} {block : OpenTag} {tail cs run rest : List Char} {s s' next : Scanner}
  {events : List Event} {name : String} {span : Span} {opened : List OpenTag}

/-- What may follow an excerpt: nothing, or a tag. -/
def Follows (tail : List Char) : Prop :=
  tail = [] ∨ ∃ rest, tail = '<' :: rest

/-- `run` is all the text in front of `rest`. -/
inductive TextRun : List Char → List Char → Prop where
  | stop {rest : List Char} : rest = [] ∨ startsMarkup rest → TextRun [] rest
  | cons {c : Char} {run rest : List Char} :
      startsMarkup (c :: (run ++ rest)) = false → TextRun run rest → TextRun (c :: run) rest

theorem textOnto_eq_iff {front : List Char} :
    textOnto front cs = (run, rest) ↔
      ∃ more, run = front.reverse ++ more ∧ cs = more ++ rest ∧ TextRun more rest := by
  -- By induction on what is left to read; `front` has been read before.
  induction cs generalizing front with
  | nil =>
      simp only [textOnto, Prod.mk.injEq]
      constructor
      · rintro ⟨rfl, rfl⟩
        exact ⟨[], by simp, rfl, .stop (.inl rfl)⟩
      · rintro ⟨more, rfl, hnil, _⟩
        rcases List.append_eq_nil_iff.1 hnil.symm with ⟨rfl, rfl⟩
        exact ⟨by simp, rfl⟩
  | cons c cs ih =>
      rw [textOnto]
      split
      · next hmarkup =>
          rw [Prod.mk.injEq]
          constructor
          · rintro ⟨rfl, rfl⟩
            exact ⟨[], by simp, rfl, .stop (.inr hmarkup)⟩
          · rintro ⟨more, rfl, hcs, htext⟩
            cases htext with
            | stop _ => exact ⟨by simp, hcs⟩
            | cons hnot _ =>
                -- No text starts where markup does.
                rw [List.cons_append] at hcs
                rw [hcs, hnot] at hmarkup
                cases hmarkup
      · next hmarkup =>
          rw [ih]
          constructor
          · rintro ⟨more, rfl, rfl, htext⟩
            exact ⟨c :: more, by simp, rfl, .cons (by simpa using hmarkup) htext⟩
          · rintro ⟨more, rfl, hcs, htext⟩
            cases htext with
            | stop hstop =>
                rcases hstop with rfl | hstop
                · cases hcs
                · rw [List.nil_append] at hcs
                  exact absurd (hcs ▸ hstop) hmarkup
            | @cons d more _ _ htext =>
                cases hcs
                exact ⟨more, by simp, rfl, htext⟩

/-- A mark at the front does not reach past the end of an excerpt. -/
theorem prefix_of_follows {lead : List Char} {d : Char} (htail : Follows tail)
    (hlead : '<' ∉ lead) (h : d :: lead <+: cs ++ tail) (hcs : cs ≠ []) : d :: lead <+: cs := by
  rcases h with ⟨behind, heq⟩
  rcases List.append_eq_append_iff.1 heq with ⟨more, rfl, _⟩ | ⟨more, hmore, hbehind⟩
  · exact List.prefix_append _ _
  · cases more with
    | nil =>
        rw [List.append_nil] at hmore
        exact hmore ▸ List.prefix_refl _
    | cons e more =>
        -- The first character behind the excerpt would be one of the mark.
        exfalso
        rcases htail with rfl | ⟨rest, rfl⟩
        · cases hbehind
        · rcases List.exists_cons_of_ne_nil hcs with ⟨d', cs, rfl⟩
          cases hbehind
          cases hmore
          simp at hlead

theorem readName?_isSome_append (htail : Follows tail) (cs : List Char) :
    (Tag.readName? (cs ++ tail)).isSome = (Tag.readName? cs).isSome := by
  rcases htail with rfl | ⟨rest, rfl⟩
  · rw [List.append_nil]
  · rw [Tag.readName?_append_stop (by decide) (by decide), Option.isSome_map]

theorem startsMarkup_iff :
    startsMarkup cs ↔
      ∃ rest, cs = '<' :: rest ∧
        (Declaration.starts cs ∨ (EndTag.read? ⟨0, cs⟩).isSome ∨ (Tag.readName? rest).isSome) := by
  unfold startsMarkup
  split
  · simp [or_assoc]
  · next hnot =>
      simp only [Bool.false_eq_true, false_iff]
      rintro ⟨rest, rfl, _⟩
      exact hnot rest rfl

/-- Where markup starts in an excerpt, it starts in the source. -/
theorem startsMarkup_append (htail : Follows tail) (h : startsMarkup cs) :
    startsMarkup (cs ++ tail) := by
  rcases startsMarkup_iff.1 h with ⟨rest, rfl, hcases⟩
  refine startsMarkup_iff.2 ⟨rest ++ tail, rfl, ?_⟩
  rcases hcases with hdecl | hend | hname
  · refine .inl (Declaration.starts_iff.2 ?_)
    refine (Declaration.starts_iff.1 hdecl).imp ?_ ?_
    · exact fun hlead => hlead.trans (List.prefix_append _ _)
    · exact fun hlead => hlead.trans (List.prefix_append _ _)
  · refine .inr (.inl ?_)
    rw [← Option.ne_none_iff_isSome] at hend ⊢
    intro hnone
    have hexcerpt : Cursor.Excerpt 0 tail ⟨0, '<' :: rest ++ tail⟩ ⟨0, '<' :: rest⟩ := ⟨rfl, rfl⟩
    exact hend (hexcerpt.endTag_eq_none hnone)
  · exact .inr (.inr ((readName?_isSome_append htail rest).trans hname))

/-- If an end tag is next, it ends in front of `tail`. -/
def EndsInside (tail cs : List Char) : Prop :=
  ∀ name trailing behind, EndTag.Written name trailing →
    cs = EndTag.chars name trailing ++ behind → ∃ rest, behind = rest ++ tail

/-- Where markup starts in the source, it starts in an excerpt, but for an end tag that ends outside
of it. -/
theorem startsMarkup_of_append (htail : Follows tail) (hcs : cs ≠ [])
    (hinside : EndsInside tail (cs ++ tail)) (h : startsMarkup (cs ++ tail)) :
    startsMarkup cs := by
  rcases List.exists_cons_of_ne_nil hcs with ⟨d, rest, rfl⟩
  rcases startsMarkup_iff.1 h with ⟨rest', heq, hcases⟩
  rw [List.cons_append] at heq
  cases heq
  refine startsMarkup_iff.2 ⟨rest, rfl, ?_⟩
  rcases hcases with hdecl | hend | hname
  · refine .inl (Declaration.starts_iff.2 ?_)
    refine (Declaration.starts_iff.1 hdecl).imp ?_ ?_
    · exact fun hlead => prefix_of_follows htail (by decide) hlead hcs
    · exact fun hlead => prefix_of_follows htail (by decide) hlead hcs
  · rcases Option.isSome_iff_exists.1 hend with ⟨⟨tag, after⟩, hread⟩
    rcases EndTag.read?_eq_some_iff.1 hread with ⟨name, trailing, hwritten, htakes, _⟩
    rcases hinside name trailing _ hwritten htakes.rest_eq with ⟨behind, hafter⟩
    have hexcerpt : Cursor.Excerpt 0 tail ⟨0, '<' :: rest ++ tail⟩ ⟨0, '<' :: rest⟩ := ⟨rfl, rfl⟩
    rcases hexcerpt.endTag_eq_some hread hafter with ⟨tag', after', hread', _⟩
    exact .inr (.inl (Option.isSome_iff_exists.2 ⟨_, hread'⟩))
  · exact .inr (.inr ((readName?_isSome_append htail rest).symm.trans hname))

/-- Text that ends inside is the same in the excerpt. -/
theorem TextRun.excerpt (h : TextRun run (cs ++ tail)) (htail : Follows tail)
    (hinside : cs ≠ [] → EndsInside tail (cs ++ tail)) : TextRun run cs := by
  generalize hrest : cs ++ tail = rest at h
  induction h with
  | stop hstop =>
      subst hrest
      refine .stop ?_
      by_cases hcs : cs = []
      · exact .inl hcs
      · rcases hstop with hnil | hmarkup
        · exact .inl (List.append_eq_nil_iff.1 hnil).1
        · exact .inr (startsMarkup_of_append htail hcs (hinside hcs) hmarkup)
  | @cons d run _ hnot _ ih =>
      subst hrest
      refine .cons ?_ (ih rfl)
      rw [Bool.eq_false_iff] at hnot ⊢
      intro hmarkup
      apply hnot
      simpa using startsMarkup_append htail hmarkup

end Scanner

/-! ## Raw content -/

namespace RawText

variable {name front cs tail taken rest : List Char}

theorem readFolded?_eq_some_iff :
    readFolded? name cs = some (taken, rest) ↔
      cs = taken ++ rest ∧ List.Forall₂ (fun l c => foldsTo c l = true) name taken := by
  induction name generalizing cs taken with
  | nil =>
      simp only [readFolded?, Option.some.injEq, Prod.mk.injEq, List.forall₂_nil_left_iff]
      constructor
      · rintro ⟨rfl, rfl⟩
        exact ⟨rfl, rfl⟩
      · rintro ⟨rfl, rfl⟩
        exact ⟨rfl, rfl⟩
  | cons l name ih =>
      rw [List.forall₂_cons_left_iff]
      constructor
      · intro h
        cases cs with
        | nil => cases h
        | cons c cs =>
            rw [readFolded?] at h
            split at h
            · next hfolds =>
                split at h
                · next taken' rest' hread =>
                    cases h
                    rcases ih.1 hread with ⟨rfl, hname⟩
                    exact ⟨rfl, c, taken', hfolds, hname, rfl⟩
                · cases h
            · cases h
      · rintro ⟨rfl, c, taken', hfolds, hname, rfl⟩
        have hread : readFolded? name (taken' ++ rest) = some (taken', rest) := ih.2 ⟨rfl, hname⟩
        simp [readFolded?, hfolds, hread]

theorem endOnto?_rest_length {e : Ended} (h : endOnto? name front cs = some e) :
    e.rest.length < cs.length := by
  induction cs generalizing front with
  | nil => cases h
  | cons c cs ih =>
      rw [endOnto?] at h
      split at h
      · next lead behind hlead =>
          split at h
          · next trailing rest hbreak =>
              cases h
              have hbehind := congrArg List.length (readFolded?_eq_some hlead).1
              have hrest := Text.breakOn?_length hbreak
              simp only [List.length_append, List.length_cons] at hbehind hrest ⊢
              omega
          · cases h
      · exact Nat.lt_succ_of_lt (ih h)

/-- Raw content whose end tag ends inside is the same in an excerpt. -/
theorem endOnto?_excerpt {e : Ended} (h : endOnto? name front (cs ++ tail) = some e)
    (he : e.rest = rest ++ tail) : endOnto? name front cs = some { e with rest } := by
  induction cs generalizing front with
  | nil =>
      -- The end tag would stand behind the excerpt.
      have hlt := endOnto?_rest_length h
      rw [he, List.nil_append, List.length_append] at hlt
      exact absurd hlt (Nat.not_lt_of_le (Nat.le_add_left _ _))
  | cons c cs ih =>
      rw [List.cons_append, endOnto?] at h
      split at h
      · next lead behind hlead =>
          split at h
          · next trailing behind' hbreak =>
              cases h
              have hbehind' : behind' = rest ++ tail := he
              rcases readFolded?_eq_some_iff.1 hlead with ⟨hcs, hfolds⟩
              rcases Text.breakOn?_eq_some_iff.1 hbreak with ⟨rfl, hfirst⟩
              have hcs' : c :: cs = lead ++ (trailing ++ ['>'] ++ rest) := by
                have hwhole : c :: cs ++ tail = lead ++ (trailing ++ ['>'] ++ rest) ++ tail := by
                  rw [List.cons_append, hcs, hbehind']
                  simp
                exact List.append_cancel_right hwhole
              have hread : readFolded? ('<' :: '/' :: name) (c :: cs) =
                  some (lead, trailing ++ ['>'] ++ rest) :=
                readFolded?_eq_some_iff.2 ⟨hcs', hfolds⟩
              have hbreak' : Text.breakOn? ['>'] (trailing ++ ['>'] ++ rest) =
                  some (trailing, rest) :=
                Text.breakOn?_eq_some_iff.2 ⟨rfl, hfirst⟩
              simp only [endOnto?, hread, hbreak']
          · cases h
      · next hnone =>
          have hnone' : readFolded? ('<' :: '/' :: name) (c :: cs) = none := by
            rw [Option.eq_none_iff_forall_ne_some] at hnone ⊢
            rintro ⟨lead, behind⟩ hread
            rcases readFolded?_eq_some_iff.1 hread with ⟨hcs, hfolds⟩
            apply hnone (lead, behind ++ tail)
            rw [readFolded?_eq_some_iff, ← List.cons_append, hcs, List.append_assoc]
            exact ⟨rfl, hfolds⟩
          simp only [endOnto?, hnone']
          exact ih h

end RawText

/-! ## Elements around an excerpt -/

namespace Scanner

variable {delta : Nat} {block : OpenTag} {tail cs run rest : List Char} {s s' next : Scanner}
  {events : List Event} {name : String} {span : Span} {opened : List OpenTag}

/-- An element with markup in it that no start tag ends. -/
structure Lasting (block : OpenTag) : Prop where
  not_raw : Tag.isRawText block.name = false
  not_ended : ∀ next, endsParagraph next block = false ∧ endsSibling next block = false

/-- `s` stands in a source where `s'` stands in an excerpt of it, which is inside `block`. -/
structure Excerpt (delta : Nat) (block : OpenTag) (tail : List Char) (s s' : Scanner) : Prop where
  cursor : s.cursor.Excerpt delta tail s'.cursor
  opened_eq : s.opened = s'.opened.map (OpenTag.shift delta) ++ [block]
  lasting : Lasting block
  follows : Follows tail

theorem rawName?_excerpt (h : Excerpt delta block tail s s') :
    rawName? s.opened = rawName? s'.opened := by
  rw [h.opened_eq]
  cases s'.opened with
  | nil => simp [rawName?, h.lasting.not_raw]
  | cons tag outer => rfl

theorem map_shift_closeMissing (delta : Nat) (span : Span) (opened : List OpenTag) :
    (opened.map (OpenTag.shift delta)).flatMap (closeMissing (span.shift delta)) =
      (opened.flatMap (closeMissing span)).map (Event.shift delta) := by
  rw [List.flatMap_map, List.map_flatMap]
  rfl

/-- Where `block` stays open, closing by name does the same in the excerpt. -/
theorem closeNamed_excerpt
    (hkept : (closeNamed name (span.shift delta)
      (opened.map (OpenTag.shift delta) ++ [block])).2 ≠ []) :
    closeNamed name (span.shift delta) (opened.map (OpenTag.shift delta) ++ [block]) =
      ((closeNamed name span opened).1.map (Event.shift delta),
        (closeNamed name span opened).2.map (OpenTag.shift delta) ++ [block]) := by
  rcases exists_innermost name opened with hnone | ⟨inner, target, outer, rfl, hinner, htarget⟩
  · -- Nothing inside has the name, and `block` does not have it either, for it would be closed.
    have hnone' : ∀ tag ∈ opened.map (OpenTag.shift delta),
        Tag.sameName tag.name name = false := by
      simpa using hnone
    cases hblock : Tag.sameName block.name name with
    | true =>
        rw [closeNamed_of_innermost hnone' hblock] at hkept
        exact absurd rfl hkept
    | false =>
        have hall : ∀ tag ∈ opened.map (OpenTag.shift delta) ++ [block],
            Tag.sameName tag.name name = false :=
          List.forall_mem_append.2 ⟨hnone', by simpa using hblock⟩
        rw [closeNamed_of_none hall, closeNamed_of_none hnone]
        rfl
  · have hinner' : ∀ tag ∈ inner.map (OpenTag.shift delta),
        Tag.sameName tag.name name = false := by
      simpa using hinner
    have htarget' : Tag.sameName (target.shift delta).name name := htarget
    have hwhole : (inner ++ target :: outer).map (OpenTag.shift delta) ++ [block] =
        inner.map (OpenTag.shift delta) ++
          target.shift delta :: (outer.map (OpenTag.shift delta) ++ [block]) := by
      simp
    rw [hwhole, closeNamed_of_innermost hinner' htarget', closeNamed_of_innermost hinner htarget,
      map_shift_closeMissing, List.map_append]
    rfl

theorem closeBefore_excerpt (delta : Nat) (ends : OpenTag → Bool)
    (hends : ∀ around, ends (OpenTag.shift delta around) = ends around)
    (hblock : ends block = false) (tag : StartTag) (opened : List OpenTag) :
    closeBefore (tag.shift delta) ends (opened.map (OpenTag.shift delta) ++ [block]) =
      ((closeBefore tag ends opened).1.map (Event.shift delta),
        (closeBefore tag ends opened).2.map (OpenTag.shift delta) ++ [block]) := by
  cases opened with
  | nil => simp [closeBefore, hblock]
  | cons around outer =>
      cases haround : ends around with
      | true => simp [closeBefore, hends, haround, Event.shift, Warning.shift, StartTag.shift,
          Span.shift, Span.empty]
      | false => simp [closeBefore, hends, haround]

/-- The line feed behind a start tag stands in the excerpt or not at all. -/
theorem dropNewline_excerpt {c c' : Cursor} (h : c.Excerpt delta tail c') (htail : Follows tail)
    (tag : StartTag) :
    (dropNewline (tag.shift delta) c).Excerpt delta tail (dropNewline tag c') := by
  rcases h with ⟨hoffset, hrest⟩
  cases hcs : c'.rest with
  | nil =>
      -- What follows the excerpt is no line feed.
      have hsame : dropNewline tag c' = c' := by simp [dropNewline, hcs]
      have hsame' : dropNewline (tag.shift delta) c = c := by
        rcases htail with rfl | ⟨rest, rfl⟩
        · simp [dropNewline, hrest, hcs]
        · simp [dropNewline, hrest, hcs]
      rw [hsame, hsame']
      exact ⟨hoffset, hrest⟩
  | cons d cs =>
      by_cases hd : d = '\n'
      · subst hd
        cases hdrops : !isUnary tag && Tag.dropsFirstNewline tag.name with
        | true =>
            have hdrops' : (!isUnary (tag.shift delta) &&
                Tag.dropsFirstNewline (tag.shift delta).name) = true := hdrops
            simp only [dropNewline, hrest, hcs, List.cons_append, hdrops, hdrops', if_true]
            refine ⟨?_, rfl⟩
            simp only [Cursor.advance, hoffset]
            exact Nat.add_right_comm _ _ _
        | false =>
            have hdrops' : (!isUnary (tag.shift delta) &&
                Tag.dropsFirstNewline (tag.shift delta).name) = false := hdrops
            simp only [dropNewline, hrest, hcs, List.cons_append, hdrops, hdrops', if_false,
              Bool.false_eq_true]
            exact ⟨hoffset, hrest⟩
      · have hsame : dropNewline tag c' = c' := by simp [dropNewline, hcs, hd]
        have hsame' : dropNewline (tag.shift delta) c = c := by
          simp [dropNewline, hrest, hcs, hd]
        rw [hsame, hsame']
        exact ⟨hoffset, hrest⟩

theorem openTag_excerpt {after after' : Cursor} (h : Excerpt delta block tail s s')
    (hafter : after.Excerpt delta tail after') (tag : StartTag) :
    (openTag (tag.shift delta) after s.opened).1 =
        (openTag tag after' s'.opened).1.map (Event.shift delta) ∧
      Excerpt delta block tail (openTag (tag.shift delta) after s.opened).2
        (openTag tag after' s'.opened).2 := by
  rcases h with ⟨_, hopened, hlasting, htail⟩
  -- Both checks look at names only, so they come out the same for the shifted tag.
  have hends : endsParagraph (tag.shift delta) = endsParagraph tag ∧
      endsSibling (tag.shift delta) = endsSibling tag ∧
      isUnary (tag.shift delta) = isUnary tag := ⟨rfl, rfl, rfl⟩
  have hfirst := closeBefore_excerpt delta (endsParagraph tag) (fun _ => rfl)
    (hlasting.not_ended tag).1 tag s'.opened
  have hsecond := closeBefore_excerpt delta (endsSibling tag) (fun _ => rfl)
    (hlasting.not_ended tag).2 tag (closeBefore tag (endsParagraph tag) s'.opened).2
  constructor
  · simp only [openTag, hopened, hends, hfirst, hsecond]
    simp [Event.shift]
  · refine ⟨dropNewline_excerpt hafter htail tag, ?_, hlasting, htail⟩
    simp only [openTag, hopened, hends, hfirst, hsecond]
    cases isUnary tag with
    | true => rfl
    | false => rfl

theorem map_shift_rawEvents (delta : Nat) (name : String) (body : List Char) (span : Span) :
    rawEvents name body (span.shift delta) =
      (rawEvents name body span).map (Event.shift delta) := by
  unfold rawEvents
  split
  · rfl
  · rfl

/-! ## Steps -/

/-- A step of `s'` does in the excerpt what one does in the source that reports `events` and goes on
at `next`. -/
def Repeats (delta : Nat) (block : OpenTag) (tail : List Char) (s' : Scanner)
    (events : List Event) (next : Scanner) : Prop :=
  ∃ events' next', Step s' events' next' ∧ events = events'.map (Event.shift delta) ∧
    Excerpt delta block tail next next'

namespace Excerpt

theorem declaration_eq_none (h : Excerpt delta block tail s s')
    (hdecl : Declaration.read? s.cursor.rest = none) :
    Declaration.read? s'.cursor.rest = none := by
  rw [h.cursor.rest_eq] at hdecl
  exact Declaration.read?_append_eq_none hdecl

theorem repeats_declaration {taken : List Char} (h : Excerpt delta block tail s s')
    (hraw : rawName? s'.opened = none)
    (hdecl : Declaration.read? s.cursor.rest = some (taken, rest ++ tail)) :
    Repeats delta block tail s' [] { s with cursor := s.cursor.advance taken (rest ++ tail) } := by
  rcases Declaration.read?_eq_some_iff.1 hdecl with ⟨hcomplete, hsplit⟩
  rcases h.cursor.takes (Cursor.takes_advance hsplit) rfl with ⟨hrest, hafter⟩
  have hdecl' : Declaration.read? s'.cursor.rest = some (taken, rest) :=
    Declaration.read?_eq_some_iff.2 ⟨hcomplete, hrest⟩
  exact ⟨[], _, .declaration hraw hdecl', rfl, hafter, h.opened_eq, h.lasting, h.follows⟩

theorem repeats_endTag {tag : EndTag} {after : Cursor} (h : Excerpt delta block tail s s')
    (hraw : rawName? s'.opened = none) (hdecl : Declaration.read? s.cursor.rest = none)
    (hend : EndTag.read? s.cursor = some (tag, after)) (hafter : after.rest = rest ++ tail)
    (hkept : (closeNamed tag.name tag.span s.opened).2 ≠ []) :
    Repeats delta block tail s' (closeNamed tag.name tag.span s.opened).1
      ⟨after, (closeNamed tag.name tag.span s.opened).2⟩ := by
  rcases h.cursor.endTag_eq_some hend hafter with ⟨tag', after', hend', hname, hspan, hcursor⟩
  rw [h.opened_eq, hname, hspan] at hkept ⊢
  rw [closeNamed_excerpt hkept]
  exact ⟨_, _, .endTag hraw (h.declaration_eq_none hdecl) hend', rfl, hcursor, rfl, h.lasting,
    h.follows⟩

theorem repeats_startTag {tag : StartTag} {after : Cursor} (h : Excerpt delta block tail s s')
    (hraw : rawName? s'.opened = none) (hdecl : Declaration.read? s.cursor.rest = none)
    (hend : EndTag.read? s.cursor = none)
    (hstart : StartTag.read? s.cursor = some (tag, after))
    (hafter : (dropNewline tag after).rest = rest ++ tail) :
    Repeats delta block tail s' (openTag tag after s.opened).1 (openTag tag after s.opened).2 := by
  -- The tag ends inside, with or without a line feed behind it.
  have hinside : ∃ cs, after.rest = cs ++ tail := by
    rcases dropNewline_cases tag after with heq | ⟨cs, hcs, _, _, heq⟩
    · rw [heq] at hafter
      exact ⟨rest, hafter⟩
    · rw [heq] at hafter
      have hbehind : cs = rest ++ tail := hafter
      exact ⟨'\n' :: rest, by rw [hcs, hbehind, List.cons_append]⟩
  rcases hinside with ⟨cs, hcs⟩
  rcases h.cursor.startTag_eq_some hstart hcs with ⟨tag', after', hstart', rfl, hcursor⟩
  rcases openTag_excerpt h hcursor tag' with ⟨hevents, hnext⟩
  exact ⟨_, _, .startTag hraw (h.declaration_eq_none hdecl) (h.cursor.endTag_eq_none hend) hstart',
    hevents, hnext⟩

/-- Text stops where markup starts, and what starts there must not end outside. -/
theorem repeats_text (h : Excerpt delta block tail s s') (hraw : rawName? s'.opened = none)
    (hdecl : Declaration.read? s.cursor.rest = none) (hend : EndTag.read? s.cursor = none)
    (hstart : StartTag.read? s.cursor = none)
    (htext : textOnto [] s.cursor.rest = (run, rest ++ tail)) (hrun : run ≠ [])
    (hinside : rest ≠ [] → EndsInside tail (rest ++ tail)) :
    Repeats delta block tail s'
      [.text (String.ofList run)
        ⟨s.cursor.offset, (s.cursor.advance run (rest ++ tail)).offset⟩]
      { s with cursor := s.cursor.advance run (rest ++ tail) } := by
  rcases textOnto_eq_iff.1 htext with ⟨_, rfl, hsplit, htextRun⟩
  rcases h.cursor.takes (Cursor.takes_advance hsplit) rfl with ⟨hrest, hafter⟩
  have htext' : textOnto [] s'.cursor.rest = (run, rest) :=
    textOnto_eq_iff.2 ⟨run, rfl, hrest, htextRun.excerpt h.follows hinside⟩
  refine ⟨_, _, .text hraw (h.declaration_eq_none hdecl) (h.cursor.endTag_eq_none hend)
    (h.cursor.startTag_eq_none hstart) htext' hrun, ?_, hafter, h.opened_eq, h.lasting, h.follows⟩
  rw [h.cursor.span_eq hafter]
  rfl

/-- Raw content that is not ended takes all of the source, so the excerpt ends with it. -/
theorem repeats_rawRest (h : Excerpt delta block [] s s') (hraw : rawName? s'.opened = some name)
    (hend : RawText.end? name s.cursor.rest = none) :
    Repeats delta block [] s'
      (rawEvents name s.cursor.rest
        ⟨s.cursor.offset, (s.cursor.advance s.cursor.rest []).offset⟩)
      { s with cursor := s.cursor.advance s.cursor.rest [] } := by
  have hrest : s.cursor.rest = s'.cursor.rest := by
    rw [h.cursor.rest_eq, List.append_nil]
  have htakes : s.cursor.Takes s.cursor.rest (s.cursor.advance s.cursor.rest []) :=
    Cursor.takes_advance (by simp)
  rcases h.cursor.takes htakes (List.append_nil []).symm with ⟨_, hafter⟩
  rw [hrest] at hend hafter ⊢
  refine ⟨_, _, .rawRest hraw hend, ?_, hafter, h.opened_eq, h.lasting, h.follows⟩
  rw [h.cursor.span_eq hafter, map_shift_rawEvents]

theorem repeats_rawEnded {ended : RawText.Ended} {stop after : Cursor}
    (h : Excerpt delta block tail s s') (hraw : rawName? s'.opened = some name)
    (hend : RawText.end? name s.cursor.rest = some ended)
    (hstop : stop = s.cursor.advance ended.body (ended.endTag ++ ended.rest))
    (hafter : after = stop.advance ended.endTag ended.rest) (hrest : ended.rest = rest ++ tail)
    (hkept : (closeNamed name ⟨stop.offset, after.offset⟩ s.opened).2 ≠ []) :
    Repeats delta block tail s'
      (rawEvents name ended.body ⟨s.cursor.offset, stop.offset⟩ ++
        (closeNamed name ⟨stop.offset, after.offset⟩ s.opened).1)
      ⟨after, (closeNamed name ⟨stop.offset, after.offset⟩ s.opened).2⟩ := by
  have hsplit := (RawText.end?_eq_some hend).1
  rw [List.append_assoc] at hsplit
  rw [h.cursor.rest_eq] at hend
  have hend' : RawText.end? name s'.cursor.rest = some { ended with rest } :=
    RawText.endOnto?_excerpt hend hrest
  -- First the content, then the end tag.
  have hbody : s.cursor.Takes ended.body stop := hstop ▸ Cursor.takes_advance hsplit
  have htag : stop.Takes ended.endTag after := by
    subst hstop hafter
    exact Cursor.takes_advance rfl
  have hstopRest : stop.rest = (ended.endTag ++ rest) ++ tail := by
    rw [hstop, List.append_assoc, ← hrest]
    rfl
  have hafterRest : after.rest = rest ++ tail := by
    rw [hafter]
    exact hrest
  rcases h.cursor.takes hbody hstopRest with ⟨_, hstop'⟩
  rcases hstop'.takes htag hafterRest with ⟨_, hafter'⟩
  rw [hstop'.span_eq hafter', h.opened_eq] at hkept ⊢
  rw [h.cursor.span_eq hstop', map_shift_rawEvents, closeNamed_excerpt hkept, ← List.map_append]
  exact ⟨_, _, .rawEnded hraw hend' rfl rfl, rfl, hafter', rfl, h.lasting, h.follows⟩

end Excerpt

/-- A step that ends inside the excerpt and leaves `block` open is one in the excerpt. -/
theorem Step.excerpt (h : Step s events next) (hexcerpt : Excerpt delta block tail s s')
    (hnext : next.cursor.rest = rest ++ tail) (hkept : next.opened ≠ [])
    (hinside : rest ≠ [] → rawName? next.opened = none → EndsInside tail next.cursor.rest) :
    Repeats delta block tail s' events next := by
  have hname := rawName?_excerpt hexcerpt
  -- In each case the reader that comes to its turn in the source does so in the excerpt: those
  -- before it find nothing in the source, and so nothing in a part of it.
  cases h with
  | @declaration taken rest' hraw hdecl =>
      have hrest : rest' = rest ++ tail := hnext
      subst hrest
      exact hexcerpt.repeats_declaration (hname ▸ hraw) hdecl
  | endTag hraw hdecl hend =>
      exact hexcerpt.repeats_endTag (hname ▸ hraw) hdecl hend hnext hkept
  | startTag hraw hdecl hend hstart =>
      exact hexcerpt.repeats_startTag (hname ▸ hraw) hdecl hend hstart hnext
  | @text run rest' hraw hdecl hend hstart htext hrun =>
      have hrest : rest' = rest ++ tail := hnext
      subst hrest
      exact hexcerpt.repeats_text (hname ▸ hraw) hdecl hend hstart htext hrun
        fun hne => hinside hne hraw
  | rawRest hraw hend =>
      have htail : tail = [] := (List.append_eq_nil_iff.1 hnext.symm).2
      subst htail
      exact hexcerpt.repeats_rawRest (hname ▸ hraw) hend
  | @rawEnded _ ended stop after hraw hend hstop hafter =>
      have hrest : after.rest = rest ++ tail := hnext
      rw [hafter] at hrest
      exact hexcerpt.repeats_rawEnded (hname ▸ hraw) hend hstop hafter hrest hkept

end Scanner
end TemplateMarkup
