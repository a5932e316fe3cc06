import TemplateMarkup.Proofs.Scan.Endings
import TemplateMarkup.Proofs.Scan.Progress
import TemplateMarkup.Proofs.Scan.Starts

/-!
# The content of raw text elements

Behind the start event of a raw text element there is at most one text event before its end event.
This file says what the text is and where it ends, without saying how it is looked for:

* `RawText.Unwraps lead tail cs out` — `out` is `cs` without its wrappers; `RawText.unwraps_iff`
  ties this to the function,
* `RawText.Closes name ending` — `ending` ends the content of the element `name`,
* `RawText.end?_isFirst`, `RawText.end?_eq_none` — the content ends at the first of these,
* `Event.RawContent source tag events` — `events` follow the start event of a raw text element,
* `scan_raw_content` — so it is behind all of these start events.
-/

namespace TemplateMarkup
namespace RawText

/-! ## Wrappers -/

section Wrappers

variable {lead tail cs out : List Char}

/-- Going from left to right, each pair of `lead` and the first `tail` behind it is taken off, and
what stands between is kept as it is. -/
inductive Unwraps (lead tail : List Char) : List Char → List Char → Prop where
  | none {cs : List Char} :
      (∀ before inside rest, cs ≠ before ++ lead ++ inside ++ tail ++ rest) →
      Unwraps lead tail cs cs
  | wrapper {before inside rest out : List Char} :
      Text.FirstAt lead before → Text.FirstAt tail inside → Unwraps lead tail rest out →
      Unwraps lead tail (before ++ lead ++ inside ++ tail ++ rest) (before ++ inside ++ out)

/-- If no `tail` follows the first `lead`, none follows any other. -/
theorem no_wrapper {before behind : List Char} (hfirst : Text.FirstAt lead before)
    (hnone : ¬tail <:+: behind) (front inside rest : List Char) :
    before ++ lead ++ behind ≠ front ++ lead ++ inside ++ tail ++ rest := by
  intro heq
  -- The first lead stands no further behind, so all behind the other one lies in `behind`.
  have hle : before.length ≤ front.length := by
    by_contra hlt
    have hshorter : front ++ lead <+: before ++ lead :=
      List.prefix_of_prefix_length_le ⟨inside ++ tail ++ rest, by simp [heq]⟩ ⟨behind, rfl⟩
        (by simp only [List.length_append]; omega)
    rcases hshorter with ⟨back, hback⟩
    have hsame := hfirst front back hback.symm
    exact hlt (by rw [hsame])
  have hsuffix : inside ++ tail ++ rest <:+ behind := by
    have hlength := congrArg List.length heq
    simp only [List.length_append] at hlength
    have hleft : inside ++ tail ++ rest <:+ before ++ lead ++ behind :=
      ⟨front ++ lead, by simp [heq]⟩
    refine List.suffix_of_suffix_length_le hleft ⟨before ++ lead, rfl⟩ ?_
    simp only [List.length_append]
    omega
  exact hnone (List.IsInfix.trans ⟨inside, rest, rfl⟩ hsuffix.isInfix)

theorem unwraps_unwrap (hlead : lead ≠ []) (cs : List Char) :
    Unwraps lead tail cs (unwrap lead tail cs hlead) := by
  induction hlength : cs.length using Nat.strongRecOn generalizing cs with
  | ind n ih =>
      subst hlength
      rw [unwrap]
      split
      · next hnone =>
          refine .none fun before inside rest heq => Text.breakOn?_eq_none_iff.1 hnone ?_
          exact ⟨before, inside ++ tail ++ rest, by simp [heq]⟩
      · next before behind hbreak =>
          rcases Text.breakOn?_eq_some_iff.1 hbreak with ⟨rfl, hfirst⟩
          split
          · next hnone =>
              exact .none (no_wrapper hfirst (Text.breakOn?_eq_none_iff.1 hnone))
          · next inside rest htail =>
              rcases Text.breakOn?_eq_some_iff.1 htail with ⟨rfl, hinside⟩
              have hpos := List.length_pos_iff.2 hlead
              have hmore := ih rest.length
                (by simp only [List.length_append]; omega) rest rfl
              simpa using Unwraps.wrapper hfirst hinside hmore

/-- The relation and the function agree. -/
theorem unwraps_iff (hlead : lead ≠ []) :
    Unwraps lead tail cs out ↔ unwrap lead tail cs hlead = out := by
  constructor
  · intro h
    induction h with
    | @none cs hnone =>
        rw [unwrap]
        split
        · rfl
        · next before behind hbreak =>
            split
            · rfl
            · next inside rest htail =>
                have hcs := Text.breakOn?_eq_some hbreak
                rw [Text.breakOn?_eq_some htail] at hcs
                exact absurd (by simpa using hcs) (hnone before inside rest)
    | @wrapper before inside rest out hfirst hinside _ ih =>
        -- The first marks are unique, so the function cuts the text at the same places.
        have hbreak : Text.breakOn? lead (before ++ lead ++ inside ++ tail ++ rest) =
            some (before, inside ++ tail ++ rest) :=
          Text.breakOn?_eq_some_iff.2 ⟨by simp, hfirst⟩
        have htail : Text.breakOn? tail (inside ++ tail ++ rest) = some (inside, rest) :=
          Text.breakOn?_eq_some_iff.2 ⟨rfl, hinside⟩
        rw [unwrap]
        split
        · next hnone =>
            rw [hbreak] at hnone
            cases hnone
        · next before' behind hbreak' =>
            rw [hbreak] at hbreak'
            cases hbreak'
            split
            · next hnone =>
                rw [htail] at hnone
                cases hnone
            · next inside' rest' htail' =>
                rw [htail] at htail'
                cases htail'
                rw [ih]
  · rintro rfl
    exact unwraps_unwrap hlead cs

theorem Unwraps.sublist (h : Unwraps lead tail cs out) : out.Sublist cs := by
  induction h with
  | none _ => exact List.Sublist.refl _
  | @wrapper before inside rest out _ _ _ ih =>
      have hbefore : before.Sublist (before ++ lead) := List.sublist_append_left _ _
      have hinside : inside.Sublist (inside ++ tail) := List.sublist_append_left _ _
      simpa using (hbefore.append hinside).append ih

/-- What the text of a raw text element is, by its content: in a text area without the marks of
comments and then without those of character data, elsewhere the content itself. -/
inductive TextOf (name : String) (body : List Char) : List Char → Prop where
  | verbatim : name.toLower ≠ "textarea" → TextOf name body body
  | unwrapped {uncommented text : List Char} :
      name.toLower = "textarea" → Unwraps "<!--".toList "-->".toList body uncommented →
      Unwraps "<![CDATA[".toList "]]>".toList uncommented text → TextOf name body text

theorem textOf_content {name : String} (h : Tag.isRawText name) (body : List Char) :
    TextOf name body (content name.toLower body) := by
  rw [Scanner.content_eq h [] body, Event.contentOf]
  split
  · next harea =>
      have hname : name.toLower = "textarea" := by simpa using harea
      exact .unwrapped hname (unwraps_unwrap (by decide) _) (unwraps_unwrap (by decide) _)
  · next hother => exact .verbatim (by simpa using hother)

end Wrappers

/-- Taking off marks leaves nothing that was not there. -/
theorem contentOf_sublist (stack : List String) (body : List Char) :
    (Event.contentOf stack body).Sublist body := by
  unfold Event.contentOf
  split
  · have hcomments : Unwraps "<!--".toList "-->".toList body _ := unwraps_unwrap (by decide) body
    have hdata : Unwraps "<![CDATA[".toList "]]>".toList _ (unwrapAll body) :=
      unwraps_unwrap (by decide) _
    exact hdata.sublist.trans hcomments.sublist
  · exact List.Sublist.refl body

/-! ## The end of the content -/

section Ending

variable {name front cs ending back : List Char} {ended : Ended}

/-- What ends the content of an element whose name is `name` in lower case: `</`, the name in any
case, and anything up to a closing bracket. -/
def Closes (name ending : List Char) : Prop :=
  ∃ lead trailing, ending = EndTag.chars lead trailing ∧
    List.Forall₂ (fun l c => foldsTo c l = true) name lead ∧ '>' ∉ trailing

theorem bracket_not_mem {lead : List Char}
    (h : List.Forall₂ (fun l c => foldsTo c l = true) name lead) (hname : '>' ∉ name) :
    '>' ∉ lead := by
  induction h with
  | nil => exact List.not_mem_nil
  | @cons l c name lead hfolds _ ih =>
      rw [List.mem_cons, not_or] at hname ⊢
      refine ⟨?_, ih hname.2⟩
      rintro rfl
      -- A bracket folds to nothing but itself.
      have hl : '>' = l := by simpa [foldsTo] using hfolds
      exact hname.1 hl

/-- Where an ending stands, its start is found. -/
theorem Closes.readFolded?_ne_none (h : Closes name ending) (back : List Char) :
    readFolded? ('<' :: '/' :: name) (ending ++ back) ≠ none := by
  rcases h with ⟨lead, trailing, rfl, hfolds, _⟩
  have hread : readFolded? ('<' :: '/' :: name) (EndTag.chars lead trailing ++ back) =
      some ('<' :: '/' :: lead, trailing ++ '>' :: back) :=
    readFolded?_eq_some_iff.2
      ⟨by simp [EndTag.chars], .cons (by decide) (.cons (by decide) hfolds)⟩
  simp [hread]

/-- No ending starts further in front. -/
def IsFirst (name body cs : List Char) : Prop :=
  ∀ front ending back, cs = front ++ ending ++ back → Closes name ending →
    body.length ≤ front.length

theorem endOnto?_isFirst (h : endOnto? name front cs = some ended) :
    ∃ body, ended.body = front.reverse ++ body ∧ IsFirst name body cs := by
  induction cs generalizing front with
  | nil => cases h
  | cons c cs ih =>
      rw [endOnto?] at h
      split at h
      · split at h
        · cases h
          exact ⟨[], by simp, fun front' _ _ _ _ => Nat.zero_le front'.length⟩
        · cases h
      · next hnone =>
          rcases ih h with ⟨body, hbody, hfirst⟩
          refine ⟨c :: body, by simp [hbody], fun front' ending back hcs hcloses => ?_⟩
          cases front' with
          | nil =>
              -- An ending right here would have been read.
              rw [hcs] at hnone
              exact absurd hnone (hcloses.readFolded?_ne_none back)
          | cons d front' =>
              have hmore : cs = front' ++ ending ++ back := by
                simpa using (List.cons.inj hcs).2
              exact Nat.succ_le_succ (hfirst front' ending back hmore hcloses)

theorem endOnto?_eq_none (hname : '>' ∉ name) (h : endOnto? name front cs = none)
    (front' : List Char) (hcs : cs = front' ++ ending ++ back) : ¬Closes name ending := by
  induction cs generalizing front front' with
  | nil =>
      rintro ⟨lead, trailing, rfl, _, _⟩
      simp [EndTag.chars] at hcs
  | cons c cs ih =>
      rw [endOnto?] at h
      split at h
      · next lead behind hread =>
          split at h
          · cases h
          · next hnone =>
              -- There is no bracket left, and none in what has been matched.
              have hbehind : '>' ∉ behind := by
                intro hmem
                rcases List.append_of_mem hmem with ⟨before, after, rfl⟩
                exact Text.breakOn?_eq_none_iff.1 hnone ⟨before, after, by simp⟩
              rcases readFolded?_eq_some_iff.1 hread with ⟨hsplit, hfolds⟩
              have hlead : '>' ∉ lead := bracket_not_mem hfolds (by simpa using hname)
              rintro ⟨lead', trailing, rfl, _, _⟩
              have hmem : '>' ∈ c :: cs := by
                rw [hcs]
                simp [EndTag.chars]
              rw [hsplit, List.mem_append] at hmem
              exact hmem.elim hlead hbehind
      · next hnone =>
          intro hcloses
          cases front' with
          | nil =>
              rw [hcs] at hnone
              exact absurd hnone (hcloses.readFolded?_ne_none back)
          | cons d front' =>
              exact ih h front' (by simpa using (List.cons.inj hcs).2) hcloses

theorem end?_isFirst {name : String} (h : end? name cs = some ended) :
    Closes name.toList ended.endTag ∧ IsFirst name.toList ended.body cs := by
  rcases endOnto?_isFirst h with ⟨body, hbody, hfirst⟩
  have hsame : ended.body = body := by simpa using hbody
  exact ⟨end?_chars h, hsame ▸ hfirst⟩

end Ending
end RawText

/-! ## The events of the content -/

namespace Event

/-- A text event, unless there is no text. -/
def textEvents (text : List Char) (span : Span) : List Event :=
  if text = [] then [] else [.text (String.ofList text) span]

/-- The content `body` of an element stands in the source behind `front`, the text up to its start
tag, and behind the line feed that a text area drops. -/
structure BodyAt (source : String) (tag : StartTag) (front newline body back : List Char) :
    Prop where
  source_eq : source.toList = front ++ newline ++ (body ++ back)
  front_bytes : Text.byteLength front = tag.span.stop
  newline_dropped :
    (tag.name.toLower = "textarea" ∧ newline = ['\n']) ∨
    (newline = [] ∧ (tag.name.toLower = "textarea" → (body ++ back).head? ≠ some '\n'))

/-- The events behind the start event of a raw text element: the text of its content, if there is
any, and at once the end event. -/
inductive RawContent (source : String) (tag : StartTag) : List Event → Prop where
  /-- The content ends in front of the first ending. -/
  | ended {front newline body ending back text : List Char} {more : List Event} :
      BodyAt source tag front newline body (ending ++ back) →
      RawText.Closes tag.name.toLower.toList ending →
      RawText.IsFirst tag.name.toLower.toList body (body ++ (ending ++ back)) →
      RawText.TextOf tag.name body text →
      RawContent source tag
        (textEvents text
            ⟨Text.byteLength (front ++ newline), Text.byteLength (front ++ newline ++ body)⟩ ++
          .closed tag.name
            ⟨Text.byteLength (front ++ newline ++ body),
              Text.byteLength (front ++ newline ++ body ++ ending)⟩ :: more)
  /-- Without an ending, the content goes on to the end of the source. -/
  | unended {front newline body text : List Char} {more : List Event} :
      BodyAt source tag front newline body [] →
      (∀ before ending back, body = before ++ ending ++ back →
        ¬RawText.Closes tag.name.toLower.toList ending) →
      RawText.TextOf tag.name body text →
      RawContent source tag
        (textEvents text
            ⟨Text.byteLength (front ++ newline), Text.byteLength source.toList⟩ ++
          .warned ⟨.missingEndTag tag.name, tag.span⟩ ::
          .closed tag.name (.empty (Text.byteLength source.toList)) :: more)

end Event

namespace Scanner

open Event

variable {source : String} {s : Scanner} {events : List Event} {tag : StartTag}
  {outer : List OpenTag} {front newline : List Char}

theorem rawEvents_eq (name : String) (body : List Char) (span : Span) :
    rawEvents name body span = textEvents (RawText.content name body) span := by
  unfold rawEvents textEvents
  cases RawText.content name body <;> rfl

theorem Reads.eq_closeRest (h : Reads s events) (hrest : s.cursor.rest = []) :
    events = closeRest s.cursor.offset s.opened := by
  cases h with
  | done _ => rfl
  | step hne _ _ => exact absurd hrest hne
  | malformed hne _ => exact absurd hrest hne

theorem rawEvents_nil {name : String} (h : Tag.isRawText name) (span : Span) :
    rawEvents name.toLower [] span = [] := by
  rw [rawEvents_eq, content_eq h [] [], contentOf_nil]
  rfl

/-- An element whose content has an ending is closed by the first one. -/
theorem rawContent_ended {cs : List Char} {ended : RawText.Ended} (hraw : Tag.isRawText tag.name)
    (hbody : BodyAt source tag front newline cs [])
    (hend : RawText.end? tag.name.toLower cs = some ended) (more : List Event) :
    RawContent source tag
      (rawEvents tag.name.toLower ended.body
          ⟨Text.byteLength (front ++ newline), Text.byteLength (front ++ newline ++ ended.body)⟩ ++
        .closed tag.name
          ⟨Text.byteLength (front ++ newline ++ ended.body),
            Text.byteLength (front ++ newline ++ ended.body ++ ended.endTag)⟩ :: more) := by
  rcases RawText.end?_isFirst hend with ⟨hending, hfirst⟩
  have hcs : cs = ended.body ++ (ended.endTag ++ ended.rest) := by
    simpa using (RawText.end?_eq_some hend).1
  rw [hcs] at hbody hfirst
  have hbody' : BodyAt source tag front newline ended.body (ended.endTag ++ ended.rest) :=
    ⟨by simpa using hbody.source_eq, hbody.front_bytes, by simpa using hbody.newline_dropped⟩
  rw [rawEvents_eq]
  exact .ended hbody' hending hfirst (RawText.textOf_content hraw ended.body)

/-- At the end of the source, an element without an ending is closed in front of all others. -/
theorem rawContent_unended {body : List Char} (hraw : Tag.isRawText tag.name)
    (hbody : BodyAt source tag front newline body [])
    (hnone : RawText.end? tag.name.toLower body = none) (outer : List OpenTag) :
    RawContent source tag
      (rawEvents tag.name.toLower body
          ⟨Text.byteLength (front ++ newline), Text.byteLength source.toList⟩ ++
        closeRest (Text.byteLength source.toList) (⟨tag.name, tag.span⟩ :: outer)) := by
  have hbracket : '>' ∉ tag.name.toLower.toList := by
    rcases rawText_names hraw with hname | hname | hname <;> (rw [hname]; decide)
  rw [rawEvents_eq]
  exact .unended hbody (fun before ending back => RawText.endOnto?_eq_none hbracket hnone before)
    (RawText.textOf_content hraw body)

/-- In a raw text element, the reading goes on with its content. -/
theorem Reads.rawContent (h : Reads s events) (hopened : s.opened = ⟨tag.name, tag.span⟩ :: outer)
    (hraw : Tag.isRawText tag.name) (hoffset : s.cursor.offset = Text.byteLength (front ++ newline))
    (hbody : BodyAt source tag front newline s.cursor.rest []) : RawContent source tag events := by
  have hname : rawName? s.opened = some tag.name.toLower := by
    rw [hopened]
    exact rawName?_cons hraw
  have hsize : s.cursor.offset + Text.byteLength s.cursor.rest =
      Text.byteLength source.toList := by
    rw [hbody.source_eq, hoffset, Text.byteLength_append (front ++ newline), List.append_nil]
  cases h with
  | done hrest =>
      -- Nothing is left of the source, so the content is empty.
      rw [hrest] at hbody hsize
      rw [Text.byteLength_nil, Nat.add_zero] at hsize
      have hcontent := rawContent_unended hraw hbody rfl outer
      rw [rawEvents_nil hraw] at hcontent
      rw [hopened, hsize]
      exact hcontent
  | malformed _ hnone => simp [step?, hname] at hnone
  | @step _ _ _ more hrest hstep hmore =>
      cases hstep with
      | declaration hmarkup _ => simp [hname] at hmarkup
      | endTag hmarkup _ _ => simp [hname] at hmarkup
      | startTag hmarkup _ _ _ => simp [hname] at hmarkup
      | text hmarkup _ _ _ _ _ => simp [hname] at hmarkup
      | rawRest hmarkup hend =>
          rw [hname] at hmarkup
          cases hmarkup
          -- This step takes all that is left, so only the closing of what is open follows.
          have hcontent := rawContent_unended hraw hbody hend outer
          rw [hmore.eq_closeRest rfl, hopened]
          simp only [Cursor.advance, hsize]
          rw [hoffset]
          exact hcontent
      | @rawEnded name ended stop after hmarkup hend hstop hafter =>
          rw [hname] at hmarkup
          cases hmarkup
          rcases closeNamed_rawName? hname ⟨stop.offset, after.offset⟩ with
            ⟨top, outer', hopened', hcloses⟩
          rw [hopened] at hopened'
          cases hopened'
          have hcontent := rawContent_ended hraw hbody hend more
          subst hstop hafter
          rw [hcloses]
          simp only [Cursor.advance, hoffset, ← Text.byteLength_append, List.append_assoc,
            List.cons_append, List.nil_append] at hcontent ⊢
          exact hcontent

/-- The content of a raw text element starts behind its start tag, and behind a line feed if it is
dropped. -/
theorem bodyAt_dropNewline {c stop : Cursor} (hplace : c.At source) (hraw : Tag.isRawText tag.name)
    (hunary : isUnary tag = false) (hread : StartTag.read? c = some (tag, stop)) :
    ∃ front newline, (dropNewline tag stop).offset = Text.byteLength (front ++ newline) ∧
      BodyAt source tag front newline (dropNewline tag stop).rest [] := by
  rcases StartTag.read?_takes hread with ⟨taken, _, htakes, hspan⟩
  rcases hplace.takes htakes with ⟨front, hsource, hoffset⟩
  have hfront : Text.byteLength front = tag.span.stop := by rw [hspan, hoffset]
  -- Of the raw text elements, text areas alone drop a line feed.
  have hdrops : Tag.dropsFirstNewline tag.name ↔ tag.name.toLower = "textarea" := by
    unfold Tag.dropsFirstNewline
    rcases rawText_names hraw with hname | hname | hname <;> (rw [hname]; decide +kernel)
  by_cases hnewline : tag.name.toLower = "textarea" ∧ stop.rest.head? = some '\n'
  · rcases hnewline with ⟨harea, hhead⟩
    rcases List.head?_eq_some_iff.1 hhead with ⟨rest, hrest⟩
    have hdrop : dropNewline tag stop = stop.advance ['\n'] rest := by
      simp [dropNewline, hrest, hunary, hdrops.2 harea]
    rw [hdrop]
    refine ⟨front, ['\n'], ?_, ⟨?_, hfront, .inl ⟨harea, rfl⟩⟩⟩
    · rw [Cursor.advance, hoffset, Text.byteLength_append]
    · rw [hsource, hrest]
      simp [Cursor.advance]
  · have hdrop : dropNewline tag stop = stop := by
      rcases dropNewline_cases tag stop with hdrop | ⟨rest, hrest, _, hname, _⟩
      · exact hdrop
      · exact absurd ⟨hdrops.1 hname, by rw [hrest]; rfl⟩ hnewline
    rw [hdrop]
    refine ⟨front, [], by simp [hoffset], ⟨by simp [hsource], hfront, .inr ⟨rfl, ?_⟩⟩⟩
    intro harea hhead
    exact hnewline ⟨harea, by simpa using hhead⟩

end Scanner

open Scanner

/-- Whatever its content looks like, a raw text element is closed right behind it: there is at most
one text event in front of the end event, with the place of the content, which goes on to the first
ending or to the end of the source. In the latter case alone there is a warning, that of the
missing end tag. The first ending is an end tag of the element under the conditions of
`RawText.whole_iff`. -/
theorem scan_raw_content {source : String} {tag : StartTag} {before after : List Event}
    (h : scan source = before ++ .opened tag false :: after) (hraw : Tag.isRawText tag.name) :
    Event.RawContent source tag after := by
  rcases (reads_scan source).at_start (P := fun s => s.cursor.At source)
    (fun hs hstep => hstep.place hs) (Cursor.at_ofText source) h with
    ⟨s, stop, hplace, hread, hunary, _, hreads⟩
  rcases bodyAt_dropNewline hplace hraw hunary.symm hread with ⟨front, newline, hoffset, hbody⟩
  have hopened : openedBy tag s.opened = ⟨tag.name, tag.span⟩ :: remaining tag s.opened := by
    simp [openedBy, hunary.symm]
  exact hreads.rawContent hopened hraw hoffset hbody

/-- The line feed and the marks of the comment are no part of the text, and the markup is. -/
theorem scan_raw_content_area :
    scan "<textarea>\n<b><!--c--></textarea>x" =
        [] ++ .opened ⟨"textarea", [], false, ⟨0, 10⟩⟩ false ::
          [.text "<b>c" ⟨11, 22⟩, .closed "textarea" ⟨22, 33⟩, .text "x" ⟨33, 34⟩] ∧
      Event.RawContent "<textarea>\n<b><!--c--></textarea>x"
        ⟨"textarea", [], false, ⟨0, 10⟩⟩
        [.text "<b>c" ⟨11, 22⟩, .closed "textarea" ⟨22, 33⟩, .text "x" ⟨33, 34⟩] := by
  have hscan : scan "<textarea>\n<b><!--c--></textarea>x" =
      [] ++ .opened ⟨"textarea", [], false, ⟨0, 10⟩⟩ false ::
        [.text "<b>c" ⟨11, 22⟩, .closed "textarea" ⟨22, 33⟩, .text "x" ⟨33, 34⟩] := by
    decide +kernel
  exact ⟨hscan, scan_raw_content hscan (by decide +kernel)⟩

/-- What the content goes on to need not be an end tag of the element: this one has another name,
and the end tag of the area closes nothing. -/
theorem scan_raw_content_other_name :
    scan "<textarea>a</textareas>b</textarea>" =
        [.opened ⟨"textarea", [], false, ⟨0, 10⟩⟩ false, .text "a" ⟨10, 11⟩,
          .closed "textarea" ⟨11, 23⟩, .text "b" ⟨23, 24⟩] ∧
      EndTag.read? (.ofText "</textareas>") = some (⟨"textareas", ⟨0, 12⟩⟩, ⟨12, []⟩) ∧
      EndTag.read? (.ofText "</textarea>") = some (⟨"textarea", ⟨0, 11⟩⟩, ⟨11, []⟩) ∧
      Tag.sameName "textarea" "textareas" = false := by
  decide +kernel

end TemplateMarkup
