import TemplateMarkup.Proofs.Scan.Account
import TemplateMarkup.Proofs.Scan.Excerpt

/-!
# The slices of end events

An end event with a place in the source stands at an end tag. There are two ways to find one:
outside of raw text, `EndTag.read?` reads it; inside, `RawText.end?` looks for the name of the
element. The first takes a whole name and compares it in ASCII, the second takes any text that
starts like the name, in any case of any letter:

* `Tag.readName?_part_iff` — when a name of one part is read as a whole,
* `RawText.end?_chars` — how the end of raw text is written,
* `RawText.whole_iff` — when that is an end tag of the element,
* `Scanner.RawInnermost` — raw text elements have nothing open in them, an invariant of a reading,
* `Scanner.ClosedBy source name span after` — what an end event says of its place,
* `scan_end_slice` — so it is for all end events with a place,
* `scan_end_longer_name` — and raw text may end at the end tag of another element.
-/

namespace TemplateMarkup

/-! ## Names of one part -/

namespace Tag

variable {c : Char} {part rest : List Char}

/-- Whether a name of one part goes on with `rest`. -/
def continuesName : List Char → Bool
  | ':' :: c :: _ => isPartStart c
  | c :: _ => isPartChar c
  | [] => false

theorem readPart?_append (hc : isPartStart c) (hpart : ∀ d ∈ part, isPartChar d)
    (rest : List Char) :
    readPart? (c :: part ++ rest) =
      some (c :: part ++ rest.takeWhile isPartChar, rest.dropWhile isPartChar) := by
  simp [readPart?, hc, List.takeWhile_append_of_pos hpart, List.dropWhile_append_of_pos hpart]

theorem continuesName_of_ne {d : Char} (h : d ≠ ':') (rest : List Char) :
    continuesName (d :: rest) = isPartChar d := by
  unfold continuesName
  split
  · next heq => exact absurd (List.cons.inj heq).1 h
  · next heq => rw [(List.cons.inj heq).1]
  · next heq => cases heq

theorem readLongName?_of_ne {first behind : List Char} {cs : List Char}
    (h : readPart? cs = some (first, behind)) (hcolon : ∀ rest, behind ≠ ':' :: rest) :
    readLongName? cs = some (first, behind) := by
  unfold readLongName?
  rw [h]
  split
  · next heq =>
      cases heq
      exact absurd rfl (hcolon _)
  · rfl

/-- What is read as a name is at least its first part. -/
theorem length_le_of_readLongName? {first behind cs name : List Char}
    (hfirst : readPart? cs = some (first, behind)) (h : readLongName? cs = some (name, rest)) :
    first.length ≤ name.length := by
  unfold readLongName? at h
  rw [hfirst] at h
  split at h
  · next heq =>
      cases heq
      split at h
      · cases h
        simp
      · cases h
        exact Nat.le_refl _
  · cases h
    exact Nat.le_refl _

/-- A name of one part is read as a whole where it does not go on. -/
theorem readLongName?_part_iff (hc : isPartStart c) (hpart : ∀ d ∈ part, isPartChar d) :
    readLongName? (c :: part ++ rest) = some (c :: part, rest) ↔ continuesName rest = false := by
  have hcolon : isPartChar ':' = false := by decide
  have hread := readPart?_append hc hpart rest
  cases rest with
  | nil =>
      rw [readLongName?_of_ne hread (by simp)]
      simp [continuesName]
  | cons d rest =>
      by_cases hsep : d = ':'
      · subst hsep
        -- The name goes on if another part follows the colon.
        simp only [List.takeWhile_cons, List.dropWhile_cons, hcolon, List.append_nil,
          Bool.false_eq_true, if_false] at hread
        unfold readLongName?
        rw [hread]
        cases rest with
        | nil => simp [readPart?, continuesName, hcolon]
        | cons e rest => cases he : isPartStart e <;> simp [readPart?, continuesName, he]
      · rw [continuesName_of_ne hsep]
        cases hd : isPartChar d with
        | true =>
            -- The first part is longer.
            refine iff_of_false (fun h => ?_) (by simp)
            have hle := length_le_of_readLongName? hread h
            simp only [List.takeWhile_cons, hd, if_true, List.length_append,
              List.length_cons] at hle
            omega
        | false =>
            simp only [List.takeWhile_cons, List.dropWhile_cons, hd] at hread
            rw [readLongName?_of_ne hread (by simpa using hsep)]
            simp

theorem readName?_part_iff (hc : isPartStart c) (hpart : ∀ d ∈ part, isPartChar d)
    (hbytes : Text.byteLength (c :: part) ≤ maxNameBytes) :
    readName? (c :: part ++ rest) = some (c :: part, rest) ↔ continuesName rest = false := by
  rw [← readLongName?_part_iff hc hpart]
  unfold readName?
  constructor
  · intro h
    split at h
    · next hread =>
        split at h
        · cases h
          exact hread
        · cases h
    · cases h
  · intro h
    rw [h]
    exact if_pos hbytes

/-- A closing bracket is no part of a name. -/
theorem continuesName_append_bracket (rest : List Char) :
    continuesName (rest ++ ['>']) = continuesName rest := by
  match rest with
  | [] => decide
  | [d] =>
      by_cases hd : d = ':'
      · subst hd
        decide
      · exact (continuesName_of_ne hd _).trans (continuesName_of_ne hd _).symm
  | d :: e :: rest =>
      by_cases hd : d = ':'
      · subst hd
        rfl
      · exact (continuesName_of_ne hd _).trans (continuesName_of_ne hd _).symm

end Tag

/-! ## The end of raw text -/

namespace EndTag

variable {slice name : String} {tag : EndTag}

/-- A slice that is read as one whole end tag. -/
def Whole (slice : String) (tag : EndTag) : Prop :=
  read? (.ofText slice) = some (tag, ⟨Text.byteLength slice.toList, []⟩)

theorem whole_iff :
    Whole slice tag ↔
      ∃ written trailing, Written written trailing ∧ slice.toList = chars written trailing ∧
        tag = ⟨String.ofList written, ⟨0, Text.byteLength slice.toList⟩⟩ := by
  unfold Whole
  rw [read?_eq_some_iff]
  constructor
  · rintro ⟨written, trailing, hwritten, htakes, rfl⟩
    have hrest : slice.toList = chars written trailing ++ [] := htakes.rest_eq
    exact ⟨written, trailing, hwritten, by simpa using hrest, rfl⟩
  · rintro ⟨written, trailing, hwritten, hslice, rfl⟩
    refine ⟨written, trailing, hwritten, ⟨?_, ?_⟩, rfl⟩
    · rw [List.append_nil]
      exact hslice
    · rw [hslice]
      exact (Nat.zero_add _).symm

end EndTag

theorem toList_toLower (s : String) : s.toLower.toList = s.toList.map Char.toLower :=
  String.toList_map

namespace RawText

variable {name : String} {cs lead trailing : List Char} {ended : Ended}

/-- What folds to a character that is no letter is that character. -/
theorem eq_of_foldsTo {c d : Char} (hd : d.isLower = false) (h : foldsTo c d) : c = d := by
  have hs : d ≠ 's' := by
    rintro rfl
    exact absurd hd (by decide)
  have hk : d ≠ 'k' := by
    rintro rfl
    exact absurd hd (by decide)
  have hlower : c.toLower = d := by simpa [foldsTo, hs, hk] using h
  exact Declaration.eq_of_toLower_eq hd hlower

theorem endOnto?_chars {name front : List Char} (h : endOnto? name front cs = some ended) :
    ∃ lead trailing, ended.endTag = EndTag.chars lead trailing ∧
      List.Forall₂ (fun l c => foldsTo c l = true) name lead ∧ '>' ∉ trailing := by
  induction cs generalizing front with
  | nil => cases h
  | cons c cs ih =>
      rw [endOnto?] at h
      split at h
      · next taken behind hread =>
          split at h
          · next trailing rest hbreak =>
              cases h
              rcases readFolded?_eq_some_iff.1 hread with ⟨_, hfolds⟩
              rcases List.forall₂_cons_left_iff.1 hfolds with ⟨bracket, more, hbracket, hmore, rfl⟩
              rcases List.forall₂_cons_left_iff.1 hmore with ⟨slash, lead, hslash, hlead, rfl⟩
              -- Only letters have other characters that fold to them.
              have hopen := eq_of_foldsTo (by decide) hbracket
              have hslash := eq_of_foldsTo (by decide) hslash
              subst hopen hslash
              exact ⟨lead, trailing, rfl, hlead,
                Text.firstAt_singleton.1 (Text.breakOn?_eq_some_iff.1 hbreak).2⟩
          · cases h
      · exact ih h

/-- Raw text ends with `</`, the name in any case, anything, and a closing bracket. -/
theorem end?_chars (h : end? name cs = some ended) :
    ∃ lead trailing, ended.endTag = EndTag.chars lead trailing ∧
      List.Forall₂ (fun l c => foldsTo c l = true) name.toList lead ∧ '>' ∉ trailing :=
  endOnto?_chars h

theorem isAlpha_of_toLower {d : Char} (h : d.toLower.isAlpha) : d.isAlpha := by
  unfold Char.toLower at h
  split at h
  · next hupper => exact Bool.or_eq_true_iff.2 (.inl (decide_eq_true hupper))
  · exact h

theorem byteLength_le (cs : List Char) : Text.byteLength cs ≤ 4 * cs.length := by
  induction cs with
  | nil => simp
  | cons c cs ih =>
      have hsize := Char.utf8Size_le_four c
      rw [Text.byteLength_cons, List.length_cons]
      omega

theorem isAlpha_of_isRawText (h : Tag.isRawText name) :
    name.toLower.toList.all Char.isAlpha ∧ name.toLower.toList ≠ [] ∧
      4 * name.toLower.toList.length ≤ Tag.maxNameBytes := by
  rcases Scanner.rawText_names h with hname | hname | hname
  all_goals
    rw [hname]
    decide

/-- In any case of its ASCII letters, the name is read as a whole where it does not go on. -/
theorem readName?_iff (h : Tag.isRawText name)
    (hlead : lead.map Char.toLower = name.toLower.toList) (rest : List Char) :
    Tag.readName? (lead ++ rest) = some (lead, rest) ↔ Tag.continuesName rest = false := by
  rcases isAlpha_of_isRawText h with ⟨hname, hne, hlength⟩
  have halpha : ∀ d ∈ lead, d.isAlpha := by
    intro d hd
    refine isAlpha_of_toLower (List.all_eq_true.1 hname _ ?_)
    rw [← hlead]
    exact List.mem_map_of_mem hd
  have hbytes : Text.byteLength lead ≤ Tag.maxNameBytes := by
    rw [← hlead, List.length_map] at hlength
    exact Nat.le_trans (byteLength_le lead) hlength
  cases lead with
  | nil => exact absurd hlead.symm hne
  | cons c part =>
      refine Tag.readName?_part_iff ?_ (fun d hd => ?_) hbytes
      · simp [Tag.isPartStart, halpha c]
      · simp [Tag.isPartChar, Char.isAlphanum, halpha d (List.mem_cons_of_mem c hd)]

theorem sameName_ofList_iff {cs : List Char} :
    Tag.sameName name (String.ofList cs) ↔ cs.map Char.toLower = name.toLower.toList := by
  rw [Tag.sameName, beq_iff_eq, ← String.toList_inj, toList_toLower (String.ofList cs),
    String.toList_ofList, eq_comm]

/-- The end of raw text is an end tag of its element if the name is written in ASCII letters and
does not go on, and the closing bracket is not too far behind it. -/
theorem whole_iff (h : Tag.isRawText name)
    (hfolds : List.Forall₂ (fun l c => foldsTo c l = true) name.toLower.toList lead)
    (hnot : '>' ∉ trailing) {slice : String} (hslice : slice.toList = EndTag.chars lead trailing) :
    (∃ tag, EndTag.Whole slice tag ∧ Tag.sameName name tag.name) ↔
      lead.map Char.toLower = name.toLower.toList ∧ Tag.continuesName trailing = false ∧
        Text.byteLength trailing ≤ EndTag.maxTrailingBytes := by
  constructor
  · rintro ⟨tag, hwhole, hsame⟩
    rcases EndTag.whole_iff.1 hwhole with ⟨written, trailing', hwritten, hchars, rfl⟩
    have hlower := sameName_ofList_iff.1 hsame
    -- Both have a name as long as that of the element.
    have hlength : written.length = lead.length := by
      rw [← List.length_map Char.toLower, hlower, hfolds.length_eq]
    have hsplit : written ++ trailing' = lead ++ trailing := by
      have hsame : EndTag.chars written trailing' = EndTag.chars lead trailing :=
        hchars.symm.trans hslice
      rw [EndTag.chars, EndTag.chars, List.cons_inj_right, List.cons_inj_right] at hsame
      exact List.append_cancel_right hsame
    obtain ⟨rfl, rfl⟩ := List.append_inj hsplit hlength
    have hread := hwritten.name_read
    rw [List.append_assoc, readName?_iff h hlower, Tag.continuesName_append_bracket] at hread
    exact ⟨hlower, hread, hwritten.trailing_le⟩
  · rintro ⟨hlead, hends, hbytes⟩
    have hwritten : EndTag.Written lead trailing := by
      refine ⟨?_, hnot, hbytes⟩
      rw [List.append_assoc, readName?_iff h hlead, Tag.continuesName_append_bracket]
      exact hends
    exact ⟨_, EndTag.whole_iff.2 ⟨lead, trailing, hwritten, hslice, rfl⟩,
      sameName_ofList_iff.2 hlead⟩

end RawText

/-! ## Raw text elements are innermost -/

namespace Scanner

variable {source name : String} {s next : Scanner} {events before after : List Event}
  {opened closing rest : List OpenTag} {span : Span}

/-- Nothing is open inside of a raw text element. -/
def RawInnermost (opened : List OpenTag) : Prop :=
  ∀ tag ∈ opened.tail, Tag.isRawText tag.name = false

theorem RawInnermost.of_append (h : RawInnermost (closing ++ rest)) : RawInnermost rest := by
  intro tag htag
  refine h tag ?_
  cases closing with
  | nil => exact htag
  | cons top closing => exact List.mem_append_right closing (List.mem_of_mem_tail htag)

/-- Where markup is read, no raw text element is open. -/
theorem RawInnermost.not_raw (h : RawInnermost opened) (hraw : rawName? opened = none) :
    ∀ tag ∈ opened, Tag.isRawText tag.name = false := by
  cases opened with
  | nil => simp
  | cons top outer =>
      intro tag htag
      rcases List.mem_cons.1 htag with rfl | htag
      · cases htop : Tag.isRawText tag.name with
        | false => rfl
        | true =>
            rw [rawName?_cons htop] at hraw
            cases hraw
      · exact h tag htag

theorem RawInnermost.openedBy (h : RawInnermost opened) (hraw : rawName? opened = none)
    (tag : StartTag) : RawInnermost (openedBy tag opened) := by
  rcases closes_openTag tag ⟨0, []⟩ opened with ⟨closing, _, hopened, _, _⟩
  have hall : ∀ around ∈ remaining tag opened, Tag.isRawText around.name = false := by
    intro around haround
    refine h.not_raw hraw around ?_
    rw [hopened]
    exact List.mem_append_right closing haround
  unfold Scanner.openedBy
  split
  · exact fun around haround => hall around (List.mem_of_mem_tail haround)
  · exact hall

theorem RawInnermost.closeNamed (h : RawInnermost opened) (name : String) (span : Span) :
    RawInnermost (closeNamed name span opened).2 := by
  rcases closes_closeNamed name span opened with ⟨closing, hopened, _, _⟩
  rw [hopened] at h
  exact h.of_append

theorem Step.rawInnermost (hstep : Step s events next) (h : RawInnermost s.opened) :
    RawInnermost next.opened := by
  cases hstep with
  | declaration _ _ => exact h
  | endTag _ _ _ => exact h.closeNamed _ _
  | startTag hraw _ _ _ => exact h.openedBy hraw _
  | text _ _ _ _ _ _ => exact h
  | rawRest _ _ => exact h
  | rawEnded _ _ _ _ => exact h.closeNamed _ _

/-! ## What closes an element -/

theorem Closes.of_closed_mem {span' : Span} (h : Closes span closing events)
    (hmem : .closed name span' ∈ events) : span' = span ∧ ∃ tag ∈ closing, tag.name = name := by
  induction h with
  | nil => cases hmem
  | @own tag _ _ _ ih =>
      rcases List.mem_cons.1 hmem with heq | hmem
      · cases heq
        exact ⟨rfl, tag, List.mem_cons_self, rfl⟩
      · rcases ih hmem with ⟨hspan, tag', htag', hname⟩
        exact ⟨hspan, tag', List.mem_cons_of_mem _ htag', hname⟩
  | @warned tag _ _ _ _ ih =>
      rcases List.mem_cons.1 hmem with heq | hmem
      · cases heq
      · rcases List.mem_cons.1 hmem with heq | hmem
        · cases heq
          exact ⟨rfl, tag, List.mem_cons_self, rfl⟩
        · rcases ih hmem with ⟨hspan, tag', htag', hname⟩
          exact ⟨hspan, tag', List.mem_cons_of_mem _ htag', hname⟩

/-- An end event is the last of some events, or the last one comes behind it. -/
theorem eq_or_mem_of_concat {front : List Event} {last event : Event}
    (h : front ++ [last] = before ++ event :: after) :
    (event = last ∧ after = []) ∨ (event ∈ front ∧ last ∈ after) := by
  rcases List.eq_nil_or_concat after with rfl | ⟨more, last', rfl⟩
  · obtain ⟨_, hlast⟩ := List.append_inj' h rfl
    exact .inl ⟨(List.cons.inj hlast).1.symm, rfl⟩
  · rw [List.concat_eq_append, ← List.cons_append, ← List.append_assoc] at h
    obtain ⟨rfl, hlast⟩ := List.append_inj' h rfl
    exact .inr ⟨by simp, by simp [(List.cons.inj hlast).1]⟩

/-- How an end event with a place in the source came about, where `after` is what follows it. -/
inductive ClosedBy (source name : String) (span : Span) (after : List Event) : Prop where
  /-- By an end tag, whose name is that of the last element it closes. -/
  | endTag {written trailing : List Char} :
      EndTag.Written written trailing →
      Span.Covers source span (EndTag.chars written trailing) →
      Tag.isRawText name = false →
      ((∀ other, .closed other span ∉ after) → Tag.sameName name (String.ofList written)) →
      ClosedBy source name span after
  /-- By the end of raw text. -/
  | rawText {lead trailing : List Char} :
      Tag.isRawText name →
      List.Forall₂ (fun l c => RawText.foldsTo c l = true) name.toLower.toList lead →
      '>' ∉ trailing →
      Span.Covers source span (EndTag.chars lead trailing) →
      ClosedBy source name span after

theorem ClosedBy.append (h : ClosedBy source name span after) (more : List Event) :
    ClosedBy source name span (after ++ more) := by
  cases h with
  | endTag hwritten hcovers hraw hlast =>
      exact .endTag hwritten hcovers hraw fun hnone =>
        hlast fun other hmem => hnone other (List.mem_append_left more hmem)
  | rawText hraw hfolds hnot hcovers => exact .rawText hraw hfolds hnot hcovers

theorem closedBy_endTag {tag : EndTag} {stop : Cursor} (hplace : s.cursor.At source)
    (hraw : ∀ around ∈ s.opened, Tag.isRawText around.name = false)
    (hend : EndTag.read? s.cursor = some (tag, stop))
    (hsplit : (Scanner.closeNamed tag.name tag.span s.opened).1 =
      before ++ .closed name span :: after) : ClosedBy source name span after := by
  rcases EndTag.read?_eq_some_iff.1 hend with ⟨written, trailing, hwritten, htakes, rfl⟩
  have hcovers := hplace.covers htakes
  rcases exists_innermost (String.ofList written) s.opened with
    hnone | ⟨inner, target, outer, hopened, hinner, htarget⟩
  · rw [closeNamed_of_none hnone] at hsplit
    simp at hsplit
  · rw [hopened, closeNamed_of_innermost hinner htarget] at hsplit
    rw [hopened] at hraw
    rcases eq_or_mem_of_concat hsplit with ⟨heq, _⟩ | ⟨hmem, hlast⟩
    · cases heq
      exact .endTag hwritten hcovers (hraw target (by simp)) fun _ => htarget
    · rcases (closes_closeAll _ inner).of_closed_mem hmem with ⟨rfl, tag, htag, rfl⟩
      exact .endTag hwritten hcovers (hraw tag (List.mem_append_left _ htag)) fun hnone =>
        absurd hlast (hnone target.name)

theorem closed_not_mem_rawEvents (raw : String) (body : List Char) (place : Span) :
    .closed name span ∉ rawEvents raw body place := by
  unfold rawEvents
  split
  · simp
  · simp

theorem closedBy_rawEnded {raw : String} {ended : RawText.Ended} {stop behind : Cursor}
    (hplace : stop.At source) (hraw : rawName? s.opened = some raw)
    (hend : RawText.end? raw s.cursor.rest = some ended) (htakes : stop.Takes ended.endTag behind)
    (hmem : .closed name span ∈
      (Scanner.closeNamed raw ⟨stop.offset, behind.offset⟩ s.opened).1) :
    ClosedBy source name span after := by
  unfold rawName? at hraw
  split at hraw
  · next top outer hopened =>
      split at hraw
      · next htop =>
          cases hraw
          -- The raw text element itself is the innermost of its name.
          have hcloses : Scanner.closeNamed top.name.toLower ⟨stop.offset, behind.offset⟩
              (top :: outer) = ([.closed top.name ⟨stop.offset, behind.offset⟩], outer) := by
            simp [Scanner.closeNamed, sameName_toLower htop]
          rw [hopened, hcloses, List.mem_singleton, Event.closed.injEq] at hmem
          rcases hmem with ⟨rfl, rfl⟩
          rcases RawText.end?_chars hend with ⟨lead, trailing, hchars, hfolds, hnot⟩
          exact .rawText htop hfolds hnot (hchars ▸ hplace.covers htakes)
      · cases hraw
  · cases hraw

/-- One step. -/
theorem Step.closedBy (h : Step s events next) (hplace : s.cursor.At source)
    (hinner : RawInnermost s.opened) (hspan : span.start ≠ span.stop)
    (hsplit : events = before ++ .closed name span :: after) :
    ClosedBy source name span after := by
  have hmem : .closed name span ∈ events := by simp [hsplit]
  cases h with
  | declaration _ _ => cases hmem
  | endTag hraw _ hend => exact closedBy_endTag hplace (hinner.not_raw hraw) hend hsplit
  | @startTag tag stop _ _ _ _ =>
      -- Elements that a start tag ends have no place.
      rcases closes_openTag tag stop s.opened with ⟨closing, ended, _, hcloses, heq⟩
      rw [heq] at hmem
      rcases List.mem_append.1 hmem with hmem | hmem
      · rcases hcloses.of_closed_mem hmem with ⟨rfl, _⟩
        exact absurd rfl hspan
      · simp at hmem
  | text _ _ _ _ _ _ => simp at hmem
  | rawRest _ _ => exact absurd hmem (closed_not_mem_rawEvents _ _ _)
  | rawEnded hraw hend hstop hafter =>
      rcases List.mem_append.1 hmem with hmem | hmem
      · exact absurd hmem (closed_not_mem_rawEvents _ _ _)
      · have hbody : s.cursor.rest = _ := (RawText.end?_eq_some hend).1
        rw [List.append_assoc] at hbody
        subst hstop hafter
        exact closedBy_rawEnded (hplace.takes (Cursor.takes_advance hbody)) hraw hend
          (Cursor.takes_advance rfl) hmem

/-- A whole reading. -/
theorem Reads.closedBy (h : Reads s events) (hplace : s.cursor.At source)
    (hinner : RawInnermost s.opened) (hspan : span.start ≠ span.stop)
    (hsplit : events = before ++ .closed name span :: after) :
    ClosedBy source name span after := by
  induction h generalizing before with
  | @done s _ =>
      have hmem : .closed name span ∈ closeRest s.cursor.offset s.opened := by simp [hsplit]
      rcases (closes_closeAll _ s.opened).of_closed_mem hmem with ⟨rfl, _⟩
      exact absurd rfl hspan
  | @malformed s _ _ =>
      have hmem : .closed name span ∈ Scanner.malformed s.cursor ++
          closeRest (s.cursor.advance s.cursor.rest []).offset s.opened := by
        simp [hsplit]
      rcases List.mem_append.1 hmem with hmem | hmem
      · simp [Scanner.malformed] at hmem
      · rcases (closes_closeAll _ s.opened).of_closed_mem hmem with ⟨rfl, _⟩
        exact absurd rfl hspan
  | @step s next events more _ hstep _ ih =>
      have hplace' := hstep.place hplace
      have hinner' := hstep.rawInnermost hinner
      -- The end event belongs to this step or to what follows it.
      rcases List.append_eq_append_iff.1 hsplit with ⟨later, rfl, hlater⟩ | ⟨own, rfl, hown⟩
      · exact ih hplace' hinner' hlater
      · cases own with
        | nil =>
            have hmore : more = [] ++ .closed name span :: after := hown.symm
            exact ih hplace' hinner' hmore
        | cons event own =>
            obtain ⟨rfl, hrest⟩ := List.cons.inj hown
            have hafter : after = own ++ more := hrest
            rw [hafter]
            exact (hstep.closedBy hplace hinner hspan rfl).append more

end Scanner

/-! ## End events -/

/-- The span of an end event that has a place cuts an end tag out of the source. For an element
that is no raw text its slice, read on its own, is all one end tag, and the last of the elements
that are closed there has the name of the tag. Raw text ends with text that starts like an end
tag of its element, in any case of any letter, and the slice is an end tag of that element just if
the name is written in ASCII letters and does not go on, and the closing bracket is not too far
behind it. -/
theorem scan_end_slice (source name : String) (span : Span) (before after : List Event)
    (hscan : scan source = before ++ .closed name span :: after)
    (hspan : span.start ≠ span.stop) :
    ∃ slice, span.slice? source = some slice ∧
      (Tag.isRawText name = false →
        ∃ tag, EndTag.Whole slice tag ∧ tag.span = ⟨0, Text.byteLength slice.toList⟩ ∧
          ((∀ other, .closed other span ∉ after) → Tag.sameName name tag.name)) ∧
      (Tag.isRawText name →
        ∃ lead trailing, slice.toList = EndTag.chars lead trailing ∧ '>' ∉ trailing ∧
          List.Forall₂ (fun l c => RawText.foldsTo c l = true) name.toLower.toList lead ∧
          ((∃ tag, EndTag.Whole slice tag ∧ Tag.sameName name tag.name) ↔
            lead.map Char.toLower = name.toLower.toList ∧ Tag.continuesName trailing = false ∧
            Text.byteLength trailing ≤ EndTag.maxTrailingBytes)) := by
  have hinner : Scanner.RawInnermost (Scanner.ofText source).opened := by
    intro tag htag
    cases htag
  cases (reads_scan source).closedBy (Cursor.at_ofText source) hinner hspan hscan with
  | @endTag written trailing hwritten hcovers hraw hlast =>
      refine ⟨_, hcovers.slice?_eq, fun _ => ?_, fun hraw' => ?_⟩
      · exact ⟨_, EndTag.whole_iff.2 ⟨written, trailing, hwritten, String.toList_ofList, rfl⟩, rfl,
          hlast⟩
      · rw [hraw] at hraw'
        cases hraw'
  | @rawText lead trailing hraw hfolds hnot hcovers =>
      refine ⟨_, hcovers.slice?_eq, fun hraw' => ?_, fun _ => ?_⟩
      · rw [hraw] at hraw'
        cases hraw'
      · exact ⟨lead, trailing, String.toList_ofList, hnot, hfolds,
          RawText.whole_iff hraw hfolds hnot String.toList_ofList⟩

/-- The end tag of a list also closes the item that is open in it. -/
theorem scan_end_slice_list :
    scan "<ul><li>é</ul >" =
        [.opened ⟨"ul", [], false, ⟨0, 4⟩⟩ false, .opened ⟨"li", [], false, ⟨4, 8⟩⟩ false,
          .text "é" ⟨8, 10⟩, .warned ⟨.missingEndTag "li", ⟨4, 8⟩⟩, .closed "li" ⟨10, 16⟩] ++
        [.closed "ul" ⟨10, 16⟩] ∧
      ∃ slice, Span.slice? ⟨10, 16⟩ "<ul><li>é</ul >" = some slice ∧
        ∃ tag, EndTag.Whole slice tag ∧ tag.span = ⟨0, Text.byteLength slice.toList⟩ ∧
          Tag.sameName "ul" tag.name := by
  have hscan : scan "<ul><li>é</ul >" =
      [.opened ⟨"ul", [], false, ⟨0, 4⟩⟩ false, .opened ⟨"li", [], false, ⟨4, 8⟩⟩ false,
        .text "é" ⟨8, 10⟩, .warned ⟨.missingEndTag "li", ⟨4, 8⟩⟩, .closed "li" ⟨10, 16⟩] ++
      [.closed "ul" ⟨10, 16⟩] := by
    decide +kernel
  rcases scan_end_slice _ "ul" ⟨10, 16⟩ _ [] hscan (by decide) with ⟨slice, hslice, hend, _⟩
  rcases hend (by decide +kernel) with ⟨tag, hwhole, htag, hname⟩
  exact ⟨hscan, slice, hslice, tag, hwhole, htag, hname (by simp)⟩

/-- Raw text ends at any end tag whose name starts like that of the element, although the slice is
an end tag of another element. -/
theorem scan_end_longer_name :
    scan "<script>a</scripture>b</script>" =
        [.opened ⟨"script", [], false, ⟨0, 8⟩⟩ false, .text "a" ⟨8, 9⟩, .closed "script" ⟨9, 21⟩,
          .text "b" ⟨21, 22⟩] ∧
      Span.slice? ⟨9, 21⟩ "<script>a</scripture>b</script>" = some "</scripture>" ∧
      ∀ tag, EndTag.Whole "</scripture>" tag → Tag.sameName "script" tag.name = false := by
  refine ⟨by decide +kernel, by decide +kernel, fun tag hwhole => ?_⟩
  have hread : EndTag.read? (.ofText "</scripture>") =
      some (⟨"scripture", ⟨0, 12⟩⟩, ⟨12, []⟩) := by
    decide +kernel
  rw [EndTag.Whole, hread] at hwhole
  cases hwhole
  decide +kernel

end TemplateMarkup
