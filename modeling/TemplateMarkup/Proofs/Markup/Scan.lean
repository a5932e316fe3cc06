import TemplateMarkup.Proofs.Markup.Basic
import TemplateMarkup.Proofs.Scan.Reading
import TemplateMarkup.Proofs.Tag.Written

/-!
# Scanning plain markup

What is written as a tree is scanned as that tree: `Markup.Spells` relates trees to events, and
`Markup.Document.spells_scan` finds the events of a written tree.

The readers stop where a tag stops, so every lemma about them has the rest of the source behind
the tag: a name ends at the closing bracket (`Tag.readName?_append`), and a text ends at the next
tag (`Scanner.textOnto_append`).
-/

namespace TemplateMarkup

/-! ## Names -/

namespace Tag

variable {cs name part tail : List Char}

/-- What a name starts with. -/
theorem isPartStart_of_readName? (h : readName? cs = some (name, tail)) :
    ∃ c cs', cs = c :: cs' ∧ isPartStart c := by
  cases cs with
  | nil => cases h
  | cons c cs =>
      by_cases hc : isPartStart c = true
      · exact ⟨c, cs, rfl, hc⟩
      · simp [readName?, readLongName?, readPart?, hc] at h

/-! ## Tags -/

theorem isPartStart_ne {c d : Char} (hc : isPartStart c) (hd : isPartStart d = false) :
    c ≠ d := by
  rintro rfl
  simp [hd] at hc

theorem next?_close (offset : Nat) (rest : List Char) :
    Token.next? ⟨offset, '>' :: rest⟩ =
      some (⟨offset, '>' :: rest⟩, .close false, ⟨offset + 1, rest⟩) :=
  rfl

theorem readAttributes?_close (room offset : Nat) (rest : List Char) :
    readAttributes? room ⟨offset, '>' :: rest⟩ = some ([], false, ⟨offset + 1, rest⟩) := by
  unfold readAttributes?
  rw [next?_close]

end Tag

section Tags

variable {name : String} (hname : Tag.readName? name.toList = some (name.toList, []))
  (offset : Nat) (rest : List Char)

include hname

theorem StartTag.read?_name :
    ∃ stop, StartTag.read? ⟨offset, '<' :: (name.toList ++ '>' :: rest)⟩ =
      some (⟨name, [], false, ⟨offset, stop⟩⟩, ⟨stop, rest⟩) := by
  have hread := Tag.readName?_append hname rest
  simp [StartTag.read?, hread, Cursor.advance, Tag.readAttributes?_close]

theorem EndTag.read?_name :
    ∃ stop, EndTag.read? ⟨offset, '<' :: '/' :: (name.toList ++ '>' :: rest)⟩ =
      some (⟨name, ⟨offset, stop⟩⟩, ⟨stop, rest⟩) := by
  have hread := Tag.readName?_append hname rest
  simp [EndTag.read?, hread, Cursor.advance, Text.breakWithin?, Text.breakWithinOnto]

end Tags

/-! ## Passages of a source -/

namespace Scanner

open Markup

variable {s mid next : Scanner} {events more : List Event} {opened outer : List OpenTag}
  {name content : String}

/-- Reading passes from `s` to `next` and reports `events` on the way. -/
def Passes (s : Scanner) (events : List Event) (next : Scanner) : Prop :=
  ∀ later, Reads next later → Reads s (events ++ later)

theorem Passes.refl (s : Scanner) : Passes s [] s := by
  intro later hlater
  exact hlater

theorem Passes.trans (h : Passes s events mid) (hmore : Passes mid more next) :
    Passes s (events ++ more) next := by
  intro later hlater
  rw [List.append_assoc]
  exact h _ (hmore _ hlater)

theorem Step.passes (h : Step s events next) (hrest : s.cursor.rest ≠ []) :
    Passes s events next := by
  intro later hlater
  exact .step hrest h hlater

theorem rawName?_cons_eq_none {tag : OpenTag} (h : ¬Tag.isRawText tag.name) :
    rawName? (tag :: outer) = none := by
  simp [rawName?, h]

/-! ### Text -/

theorem startsMarkup_startTag (hname : Tag.readName? name.toList = some (name.toList, []))
    (rest : List Char) : startsMarkup ('<' :: (name.toList ++ '>' :: rest)) := by
  simp [startsMarkup, Tag.readName?_append hname rest]

theorem startsMarkup_endTag (hname : Tag.readName? name.toList = some (name.toList, []))
    (rest : List Char) : startsMarkup ('<' :: '/' :: (name.toList ++ '>' :: rest)) := by
  rcases EndTag.read?_name hname 0 rest with ⟨stop, hread⟩
  simp [startsMarkup, hread]

/-- Without a bracket at the front there is no markup to read. -/
theorem no_markup {c : Cursor} (hne : ∀ rest, c.rest ≠ '<' :: rest) :
    Declaration.read? c.rest = none ∧ EndTag.read? c = none ∧ StartTag.read? c = none := by
  refine ⟨Declaration.read?_eq_none fun rest => hne ('!' :: rest), ?_, ?_⟩
  · unfold EndTag.read?
    split
    · next cs hcs => exact absurd hcs (hne ('/' :: cs))
    · rfl
  · unfold StartTag.read?
    split
    · next cs hcs => exact absurd hcs (hne cs)
    · rfl

/-- Text goes on at least to the first bracket. -/
theorem textOnto_gap {gap : List Char} (h : '<' ∉ gap) (front rest : List Char) :
    textOnto front (gap ++ rest) = textOnto (gap.reverse ++ front) rest := by
  induction gap generalizing front with
  | nil => rfl
  | cons c gap ih =>
      rw [List.mem_cons, not_or] at h
      -- Markup starts with an opening bracket only.
      have hplain : startsMarkup (c :: (gap ++ rest)) = false := by
        unfold startsMarkup
        split
        · next heq => exact absurd (List.cons.inj heq).1.symm h.1
        · rfl
      rw [List.cons_append, textOnto, hplain, if_neg (by decide), ih h.2]
      simp

/-- A text ends at the next tag. -/
theorem textOnto_append {cs rest : List Char} (hcs : '<' ∉ cs) (hrest : startsMarkup rest)
    (front : List Char) : textOnto front (cs ++ rest) = (front.reverse ++ cs, rest) := by
  rw [textOnto_gap hcs]
  cases rest with
  | nil => cases hrest
  | cons c rest => simp [textOnto, hrest]

theorem passes_text (hraw : rawName? opened = none) (hcontent : Literal content)
    {rest : List Char} (hrest : startsMarkup rest) (offset : Nat) :
    ∃ span stop, Passes ⟨⟨offset, content.toList ++ rest⟩, opened⟩ [.text content span]
      ⟨⟨stop, rest⟩, opened⟩ := by
  have htext := textOnto_append hcontent.no_tag hrest []
  have hne := hcontent.ne_nil
  have hhead : ∀ tail, content.toList ++ rest ≠ '<' :: tail := by
    intro tail heq
    cases hcs : content.toList with
    | nil => exact hne hcs
    | cons c cs =>
        rw [hcs, List.cons_append, List.cons.injEq] at heq
        exact hcontent.no_tag (by simp [hcs, heq.1])
  rcases no_markup (c := ⟨offset, content.toList ++ rest⟩) hhead with ⟨hdecl, hend, hstart⟩
  have hstep : Step ⟨⟨offset, content.toList ++ rest⟩, opened⟩ _ _ :=
    .text hraw hdecl hend hstart htext hne
  have hpass := hstep.passes (by simp [hne])
  rw [List.reverse_nil, List.nil_append, String.ofList_toList] at hpass
  exact ⟨_, _, hpass⟩

/-! ### Tags -/

/-- A start tag ends nothing if it fits into the innermost element. -/
theorem openTag_of_fits {tag : StartTag} {after : Cursor}
    (hfits : ∀ outside, opened.head? = some outside → Fits outside.name tag.name) :
    openTag tag after opened =
      ([.opened tag (isUnary tag)],
        ⟨dropNewline tag after,
          if isUnary tag then opened else ⟨tag.name, tag.span⟩ :: opened⟩) := by
  have hinert : ∀ ends : OpenTag → Bool,
      (∀ outside, opened.head? = some outside → ends outside = false) →
      closeBefore tag ends opened = ([], opened) := by
    intro ends hends
    cases opened with
    | nil => rfl
    | cons outside outer => simp [closeBefore, hends outside rfl]
  have hparagraph : closeBefore tag (endsParagraph tag) opened = ([], opened) := by
    refine hinert _ fun outside hhead => ?_
    have hphrasing := (hfits outside hhead).phrasing
    simpa [endsParagraph] using hphrasing
  have hsibling : closeBefore tag (endsSibling tag) opened = ([], opened) := by
    refine hinert _ fun outside hhead => ?_
    have hdistinct := (hfits outside hhead).distinct
    simpa [endsSibling] using hdistinct
  simp [openTag, hparagraph, hsibling]

theorem isUnary_plain (name : String) (span : Span) :
    isUnary ⟨name, [], false, span⟩ = Tag.isVoid name := by
  simp [isUnary]

theorem passes_startTag (hraw : rawName? opened = none) (hname : ElementName name)
    (hfits : ∀ outside, opened.head? = some outside → Fits outside.name name)
    (offset : Nat) (rest : List Char) :
    ∃ span stop, Passes ⟨⟨offset, '<' :: (name.toList ++ '>' :: rest)⟩, opened⟩
      [.opened ⟨name, [], false, span⟩ (Tag.isVoid name)]
      ⟨dropNewline ⟨name, [], false, span⟩ ⟨stop, rest⟩,
        if Tag.isVoid name then opened else ⟨name, span⟩ :: opened⟩ := by
  rcases StartTag.read?_name hname.read offset rest with ⟨stop, hstart⟩
  rcases Tag.isPartStart_of_readName? hname.read with ⟨c, cs, hcs, hc⟩
  -- A letter or an underscore follows the opening bracket, so this is no other kind of markup.
  have hhead : ∀ d tail, Tag.isPartStart d = false →
      '<' :: (name.toList ++ '>' :: rest) ≠ '<' :: d :: tail := by
    intro d tail hd heq
    simp only [hcs, List.cons_append, List.cons.injEq, true_and] at heq
    exact Tag.isPartStart_ne hc hd heq.1
  have hdecl : Declaration.read? ('<' :: (name.toList ++ '>' :: rest)) = none :=
    Declaration.read?_eq_none fun tail => hhead '!' tail (by decide)
  have hend : EndTag.read? ⟨offset, '<' :: (name.toList ++ '>' :: rest)⟩ = none := by
    unfold EndTag.read?
    split
    · next heq => exact absurd heq (hhead '/' _ (by decide))
    · rfl
  have hstep : Step ⟨⟨offset, '<' :: (name.toList ++ '>' :: rest)⟩, opened⟩ _ _ :=
    .startTag hraw hdecl hend hstart
  have hpass := hstep.passes (by simp)
  rw [openTag_of_fits hfits, isUnary_plain] at hpass
  exact ⟨_, _, hpass⟩

theorem passes_endTag (hname : ElementName name) (span : Span) (offset : Nat)
    (rest : List Char) :
    ∃ last stop, Passes
      ⟨⟨offset, '<' :: '/' :: (name.toList ++ '>' :: rest)⟩, ⟨name, span⟩ :: outer⟩
      [.closed name last] ⟨⟨stop, rest⟩, outer⟩ := by
  rcases EndTag.read?_name hname.read offset rest with ⟨stop, hend⟩
  have hdecl : Declaration.read? ('<' :: '/' :: (name.toList ++ '>' :: rest)) = none := by
    refine Declaration.read?_eq_none fun tail heq => ?_
    simp at heq
  have hstep :
      Step ⟨⟨offset, '<' :: '/' :: (name.toList ++ '>' :: rest)⟩, ⟨name, span⟩ :: outer⟩ _ _ :=
    .endTag (rawName?_cons_eq_none hname.not_raw) hdecl hend
  have hclose : closeNamed name ⟨offset, stop⟩ (⟨name, span⟩ :: outer) =
      ([.closed name ⟨offset, stop⟩], outer) := by
    simp [closeNamed, Tag.sameName]
  have hpass := hstep.passes (by simp)
  rw [hclose] at hpass
  exact ⟨_, _, hpass⟩

end Scanner

/-! ## Whole trees -/

namespace Markup

open Scanner

variable {parent name : String} {kids rest : List Markup} {events more : List Event}

/-- Events that tell of the given trees. -/
inductive Spells : List Markup → List Event → Prop where
  | nil : Spells [] []
  | text {content : String} {span : Span} {rest : List Markup} {more : List Event} :
      Spells rest more → Spells (text content :: rest) (.text content span :: more)
  | void {name : String} {span : Span} {rest : List Markup} {more : List Event} :
      Tag.isVoid name → Spells rest more →
      Spells (element name [] :: rest) (.opened ⟨name, [], false, span⟩ true :: more)
  | element {name : String} {span last : Span} {kids rest : List Markup}
      {inner more : List Event} :
      ¬Tag.isVoid name → Spells kids inner → Spells rest more →
      Spells (element name kids :: rest)
        (.opened ⟨name, [], false, span⟩ false :: (inner ++ .closed name last :: more))

theorem Spells.append {ms : List Markup} (h : Spells ms events) (hrest : Spells rest more) :
    Spells (ms ++ rest) (events ++ more) := by
  induction h with
  | nil => exact hrest
  | text _ ih => exact .text ih
  | void hvoid _ ih => exact .void hvoid ih
  | @element name span last kids ms inner events hvoid hkids _ _ ih =>
      have h : Spells (.element name kids :: (ms ++ rest))
          (.opened ⟨name, [], false, span⟩ false ::
            (inner ++ .closed name last :: (events ++ more))) :=
        .element hvoid hkids ih
      simpa using h

/-- Behind trees that do not start with a text, there is markup. -/
theorem Content.startsMarkup (h : Content parent kids)
    (hhead : ∀ m, kids.head? = some m → ¬m.isText) {behind : List Char}
    (hbehind : Scanner.startsMarkup behind) :
    Scanner.startsMarkup (allChars kids ++ behind) := by
  cases h with
  | nil => exact hbehind
  | text _ _ _ => exact absurd rfl (hhead _ rfl)
  | element hholds _ _ _ =>
      simpa [allChars, chars] using startsMarkup_startTag hholds.elementName.read _

/-- No line feed is dropped in front of the content of an element. -/
theorem Holds.dropNewline_eq (h : Holds name kids) (hcontent : Content name kids) (span : Span)
    (offset : Nat) (behind : List Char) :
    dropNewline ⟨name, [], false, span⟩ ⟨offset, allChars kids ++ '<' :: behind⟩ =
      ⟨offset, allChars kids ++ '<' :: behind⟩ := by
  unfold dropNewline
  split
  · next tail hnewline =>
      apply if_neg
      intro hdrops
      -- The other element that drops a line feed has raw text as its content.
      have hpre : name.toLower = "pre" := by
        have hnames : name.toLower = "pre" ∨ name.toLower = "textarea" := by
          simpa [Tag.dropsFirstNewline] using (Bool.and_eq_true_iff.1 hdrops).2
        rcases hnames with hpre | htextarea
        · exact hpre
        · exact absurd (by simp [Tag.isRawText, Tag.rawTextTags, htextarea])
            h.elementName.not_raw
      -- Only a text can start with a line feed, and the first text does not.
      cases hcontent with
      | nil => simp [allChars] at hnewline
      | @text _ content rest hliteral _ _ =>
          refine h.newline hpre content rest rfl ?_
          cases hcs : content.toList with
          | nil => exact absurd hcs hliteral.ne_nil
          | cons c cs =>
              simp only [allChars, chars, hcs, List.cons_append, List.cons.injEq] at hnewline
              simp [hnewline.1]
      | element _ _ _ _ => simp [allChars, chars] at hnewline
  · rfl

/-- Inside `opened` and in front of `behind`, the trees are read as what they are. -/
def Passable (ms : List Markup) (opened : List OpenTag) (behind : List Char) : Prop :=
  ∀ offset, ∃ events stop, Spells ms events ∧
    Passes ⟨⟨offset, allChars ms ++ behind⟩, opened⟩ events ⟨⟨stop, behind⟩, opened⟩

section Passable

variable {m : Markup} {opened : List OpenTag} {behind : List Char}

theorem passable_nil : Passable [] opened behind := by
  intro offset
  exact ⟨[], offset, .nil, .refl _⟩

theorem Passable.cons (h : Passable [m] opened (allChars rest ++ behind))
    (hrest : Passable rest opened behind) : Passable (m :: rest) opened behind := by
  intro offset
  rcases h offset with ⟨events, mid, hspells, hpass⟩
  rcases hrest mid with ⟨more, stop, hspells', hpass'⟩
  refine ⟨events ++ more, stop, hspells.append hspells', ?_⟩
  have htrans := hpass.trans hpass'
  simpa [allChars] using htrans

theorem passable_text {content : String} (hraw : rawName? opened = none)
    (hcontent : Literal content) (hbehind : Scanner.startsMarkup behind) :
    Passable [text content] opened behind := by
  intro offset
  rcases passes_text hraw hcontent hbehind offset with ⟨span, stop, hpass⟩
  refine ⟨[.text content span], stop, .text .nil, ?_⟩
  simpa [allChars, chars] using hpass

theorem passable_element (hraw : rawName? opened = none) (hholds : Holds name kids)
    (hcontent : Content name kids)
    (hfits : ∀ outside, opened.head? = some outside → Fits outside.name name)
    (hkids : ∀ span, Passable kids (⟨name, span⟩ :: opened)
      ('<' :: '/' :: (name.toList ++ '>' :: behind))) :
    Passable [element name kids] opened behind := by
  intro offset
  cases hvoid : Tag.isVoid name with
  | true =>
      -- A void element is passed with its start tag; nothing is opened.
      have hnil := hholds.void hvoid
      subst hnil
      rcases passes_startTag hraw hholds.elementName hfits offset behind with
        ⟨span, stop, hpass⟩
      have hdrop : dropNewline ⟨name, [], false, span⟩ ⟨stop, behind⟩ = ⟨stop, behind⟩ := by
        unfold dropNewline
        split
        · simp [isUnary_plain, hvoid]
        · rfl
      rw [hvoid, hdrop, if_pos rfl] at hpass
      refine ⟨[.opened ⟨name, [], false, span⟩ true], stop, .void hvoid .nil, ?_⟩
      simpa [allChars, chars, hvoid] using hpass
  | false =>
      -- Start tag, content, end tag: three passages, one behind the other.
      rcases passes_startTag hraw hholds.elementName hfits offset
          (allChars kids ++ '<' :: '/' :: (name.toList ++ '>' :: behind)) with
        ⟨span, first, hstart⟩
      rw [hholds.dropNewline_eq hcontent, hvoid, if_neg Bool.false_ne_true] at hstart
      rcases hkids span first with ⟨inner, mid, hspells, hinner⟩
      rcases passes_endTag hholds.elementName span mid behind with ⟨last, stop, hend⟩
      have hpass := hstart.trans (hinner.trans hend)
      refine ⟨.opened ⟨name, [], false, span⟩ false :: (inner ++ [.closed name last]), stop,
        .element (by simp [hvoid]) hspells .nil, ?_⟩
      simpa [allChars, chars, hvoid] using hpass

end Passable

/-- The content of an element is passed up to the end tag. -/
theorem Content.passable (h : Content parent kids) :
    ∀ {tag : OpenTag} {outer : List OpenTag} {behind : List Char}, tag.name = parent →
      ElementName parent →
      Passable kids (tag :: outer) ('<' :: '/' :: (parent.toList ++ '>' :: behind)) := by
  induction h with
  | nil =>
      intro tag outer behind _ _
      exact passable_nil
  | @text parent content rest hliteral hhead hrest ih =>
      intro tag outer behind htag hparent
      have hraw : rawName? (tag :: outer) = none :=
        rawName?_cons_eq_none (htag ▸ hparent.not_raw)
      -- What follows is an element or the end tag of the parent, so the text ends there.
      have hbehind := hrest.startsMarkup hhead (startsMarkup_endTag hparent.read behind)
      exact (passable_text hraw hliteral hbehind).cons (ih htag hparent)
  | @element parent name kids rest hholds hfits hkids _ ihkids ihrest =>
      intro tag outer behind htag hparent
      have hraw : rawName? (tag :: outer) = none :=
        rawName?_cons_eq_none (htag ▸ hparent.not_raw)
      refine Passable.cons ?_ (ihrest htag hparent)
      -- The content of the element is passed inside of it, where `name` is the parent.
      refine passable_element hraw hholds hkids ?_ fun span => ihkids rfl hholds.elementName
      intro outside hhead
      cases hhead
      rw [htag]
      exact hfits

/-- A written document is scanned as what it is. -/
theorem Document.spells_scan {m : Markup} (h : m.Document) : Spells [m] (scan m.source) := by
  cases h with
  | @element name kids hholds hcontent _ _ =>
      have hpassable : Passable [.element name kids] [] [] :=
        passable_element rfl hholds hcontent (by simp)
          fun span => hcontent.passable rfl hholds.elementName
      rcases hpassable 0 with ⟨events, stop, hspells, hpass⟩
      -- Nothing is open at the end, so nothing is left to close.
      have hreads := hpass [] (.done rfl)
      have hscan : scan (Markup.element name kids).source = events := by
        refine reads_iff.1 ?_
        simpa [Scanner.ofText, Cursor.ofText, source, allChars, closeRest] using hreads
      rw [hscan]
      exact hspells

end Markup
end TemplateMarkup
