import TemplateMarkup.Proofs.Markup.Scan
import TemplateMarkup.Proofs.Scan.Progress
import TemplateMarkup.Proofs.Tag.TagOffsets

/-!
# Scanning at byte offsets

The scanner can also be an offset into the source instead of a cursor, with checked cuts wherever it
takes text out of the source. Behind a tag it goes on where the span of the tag ends, and spans have
32 bits for each end. This file defines the steps of that reading:

* `Declaration.lengthBytes?` — the length of a declaration,
* `Scanner.textLength?` — the length of a run of text, found from one bracket to the next,
* `Scanner.closeNamed?` — closing elements that are looked up at their places,
* `OffsetScanner.step?` — one step,

all of them `none` where a cut or a lookup fails. In a source of less than 4 GiB none fails, and the
steps are those of a cursor (`Scanner.offsets_step?`).
-/

namespace TemplateMarkup

open Text (byte byteLength)

/-! ## Declarations -/

namespace Declaration

/-- How long the complete declaration at the front is. -/
def lengthBytes? (cs : List Char) : Option (Option Nat) :=
  match Text.after? "<!--".toList cs with
  | some body => some ((Text.offsetOf? "-->".toList body).map fun stop => 4 + stop + 3)
  | none =>
      match Text.after? "<![".toList cs with
      | some _ => some ((Text.offsetOf? "]>".toList cs).map fun stop => stop + 2)
      | none =>
          -- Too short a text, or one without a boundary there, is no document type.
          if (Text.upTo? 10 cs).map (·.map Char.toLower) = some doctypeLead then
            (Text.from? 10 cs).map fun behind =>
              ((Text.offsetOf? [ '>' ] behind).filter (0 < ·)).map fun stop => 10 + stop + 1
          else some none

variable {cs body lead : List Char}

/-- Where the closing mark of a section stands does not depend on the lead, which cannot overlap
with it. -/
theorem offsetOf?_section (body : List Char) :
    Text.offsetOf? "]>".toList ("<![".toList ++ body) =
      (Text.offsetOf? "]>".toList body).map fun stop => 3 + stop := by
  have hlead : "]>".toList <:+: "<![".toList ++ body ↔ "]>".toList <:+: body := by
    simp [List.infix_cons_iff]
  cases hbreak : Text.breakOn? "]>".toList body with
  | none =>
      have hnone : Text.breakOn? "]>".toList ("<![".toList ++ body) = none := by
        rw [Text.breakOn?_eq_none_iff, hlead, ← Text.breakOn?_eq_none_iff, hbreak]
      rw [Text.offsetOf?, Text.offsetOf?, hnone, hbreak]
      rfl
  | some found =>
      rcases found with ⟨inside, rest⟩
      rcases Text.breakOn?_eq_some_iff.1 hbreak with ⟨rfl, hfirst⟩
      have hsome : Text.breakOn? "]>".toList ("<![".toList ++ (inside ++ "]>".toList ++ rest)) =
          some ("<![".toList ++ inside, rest) := by
        have hbracket : Text.FirstAt "]>".toList ('[' :: inside) :=
          Text.firstAt_cons (by simp) hfirst
        have hmark : Text.FirstAt "]>".toList ('!' :: '[' :: inside) :=
          Text.firstAt_cons (by simp) hbracket
        have hlead : Text.FirstAt "]>".toList ('<' :: '!' :: '[' :: inside) :=
          Text.firstAt_cons (by simp) hmark
        exact Text.breakOn?_eq_some_iff.2 ⟨by simp, hlead⟩
      rw [Text.offsetOf?, Text.offsetOf?, hsome, hbreak, Option.map_some, Option.map_some,
        Text.byteLength_append]
      rfl

/-- Lower case does not make a character ASCII. -/
theorem toNat_lt_of_toLower {c : Char} (h : c.toLower.toNat < 128) : c.toNat < 128 := by
  unfold Char.toLower at h
  split at h
  · next hupper => exact Nat.lt_of_le_of_lt (Text.range_of_le hupper).2 (by decide)
  · exact h

/-- What folds to the lead of a document type is ASCII. -/
theorem byteLength_doctype (h : lead.map Char.toLower = doctypeLead) : byteLength lead = 10 := by
  have hascii : ∀ c ∈ lead, c.toNat < 128 := by
    intro c hc
    have hlower : c.toLower ∈ doctypeLead := h ▸ List.mem_map_of_mem hc
    have hall : doctypeLead.all (·.toNat < 128) = true := by decide
    exact toNat_lt_of_toLower (of_decide_eq_true (List.all_eq_true.1 hall _ hlower))
  have hlength : lead.length = 10 := by
    rw [← List.length_map (f := Char.toLower), h]
    rfl
  rw [Text.byteLength_of_ascii hascii, hlength]

/-- A document type is cut behind its lead, which has as many bytes as characters. -/
theorem lengthBytes?_doctype (cs : List Char) :
    (if (Text.upTo? 10 cs).map (·.map Char.toLower) = some doctypeLead then
      (Text.from? 10 cs).map fun behind =>
        ((Text.offsetOf? [ '>' ] behind).filter (0 < ·)).map fun stop => 10 + stop + 1
    else some none) = some ((readDoctype? cs).map fun found => byteLength found.1) := by
  by_cases hlead : (cs.take doctypeLead.length).map Char.toLower = doctypeLead
  · have hlength := byteLength_doctype hlead
    have hsplit : cs = cs.take doctypeLead.length ++ cs.drop doctypeLead.length :=
      (List.take_append_drop doctypeLead.length cs).symm
    have hcut : Text.upTo? 10 cs = some (cs.take doctypeLead.length) :=
      Text.upTo?_eq_some_iff.2 ⟨_, hsplit, hlength⟩
    have hbehind : Text.from? 10 cs = some (cs.drop doctypeLead.length) :=
      Text.from?_eq_some_iff.2 ⟨_, hsplit, hlength⟩
    rw [hcut, Option.map_some, hlead, if_pos rfl, hbehind, Option.map_some, readDoctype?,
      if_pos hlead, Text.offsetOf?]
    cases Text.breakOn? [ '>' ] (cs.drop doctypeLead.length) with
    | none => rfl
    | some found =>
        rcases found with ⟨inside, rest⟩
        cases inside with
        | nil => rfl
        | cons c inside =>
            have hpos := Text.byteLength_pos (List.cons_ne_nil c inside)
            simp only [Option.map_some, Option.filter, hpos, decide_true, if_true,
              Text.byteLength_append, hlength]
            rfl
  · have hnot : (Text.upTo? 10 cs).map (·.map Char.toLower) ≠ some doctypeLead := by
      intro heq
      rcases Option.map_eq_some_iff.1 heq with ⟨lead, hcut, hfold⟩
      rcases Text.upTo?_eq_some_iff.1 hcut with ⟨rest, rfl, _⟩
      have hlength : lead.length = doctypeLead.length := by rw [← hfold, List.length_map]
      rw [← hlength, List.take_left] at hlead
      exact hlead hfold
    rw [if_neg hnot, readDoctype?, if_neg hlead]
    rfl

theorem lengthBytes?_eq (cs : List Char) :
    lengthBytes? cs = some ((read? cs).map fun found => byteLength found.1) := by
  cases hcomment : Text.after? "<!--".toList cs with
  | some body =>
      rw [lengthBytes?, hcomment]
      dsimp only
      rw [Text.offsetOf?]
      cases hbreak : Text.breakOn? "-->".toList body with
      | none =>
          rw [Text.after?_eq_some hcomment,
            read?_comment_eq_none_iff.2 (Text.breakOn?_eq_none_iff.1 hbreak)]
          rfl
      | some found =>
          have hread : read? cs =
              some ("<!--".toList ++ found.1 ++ "-->".toList, found.2) := by
            simp only [read?, readComment?, hcomment, hbreak]
          rw [hread, Option.map_some, Option.map_some, Option.map_some, Text.byteLength_append,
            Text.byteLength_append]
          rfl
  | none =>
      have hnocomment : readComment? cs = none := by simp only [readComment?, hcomment]
      cases hsection : Text.after? "<![".toList cs with
      | some body =>
          have hnodoctype : readDoctype? cs = none := by
            rw [Text.after?_eq_some hsection]
            exact readDoctype?_eq_none (by decide) body
          have hoffset : Text.offsetOf? "]>".toList cs =
              (Text.offsetOf? "]>".toList body).map fun stop => 3 + stop := by
            rw [Text.after?_eq_some hsection]
            exact offsetOf?_section body
          rw [lengthBytes?, hcomment, hsection]
          dsimp only
          rw [hoffset, Text.offsetOf?, read?, hnocomment, readSection?, hsection]
          dsimp only
          cases hbreak : Text.breakOn? "]>".toList body with
          | none =>
              dsimp only
              rw [hnodoctype]
              rfl
          | some found =>
              simp only [Option.map_some, Text.byteLength_append]
              rfl
      | none =>
          have hnosection : readSection? cs = none := by simp only [readSection?, hsection]
          have hread : read? cs = readDoctype? cs := by simp only [read?, hnocomment, hnosection]
          rw [lengthBytes?, hcomment, hsection, hread]
          exact lengthBytes?_doctype cs

end Declaration

/-! ## Text -/

namespace Scanner

/-- Whether something other than text starts at the front. -/
def startsMarkupBytes? (cs : List Char) : Option Bool :=
  let named := cs.head? == some '<' && (Tag.nameStop? (Text.bytes cs) 1).isSome
  if Declaration.starts cs then some true
  else match Text.after? ['<', '/'] cs with
    | none => some named
    | some _ => (EndTag.readBytes? cs 0).map fun tag => tag.isSome || named

/-- Where the run of text ends that goes on at least to the bracket at `stop`. -/
def textStop? (cs : List Char) (stop : Nat) : Option Nat :=
  match Text.from? stop cs with
  | none => none
  | some rest =>
      match startsMarkupBytes? rest with
      | none => none
      | some true => some stop
      | some false =>
          match _hbehind : Text.from? (stop + 1) cs with
          | none => none
          | some behind =>
              match Text.offsetOf? ['<'] behind with
              | none => some (byteLength cs)
              | some next => textStop? cs (stop + next + 1)
termination_by byteLength cs - stop
decreasing_by
  have hle := Text.from?_le _hbehind
  omega

/-- How long the run of text at the front is. -/
def textLength? (cs : List Char) : Option Nat :=
  match Text.offsetOf? ['<'] cs with
  | none => some (byteLength cs)
  | some stop => textStop? cs stop

variable {front cs gap rest : List Char}

theorem startsMarkupBytes?_eq (cs : List Char) :
    startsMarkupBytes? cs = some (startsMarkup cs) := by
  have hend : EndTag.readBytes? cs 0 =
      some ((EndTag.read? ⟨0, cs⟩).map fun found => found.1.clamped) := by
    have hplace : (⟨0, cs⟩ : Cursor).At (String.ofList cs) := ⟨[], by simp, rfl⟩
    have hread := EndTag.readBytes?_eq hplace
    rwa [String.toList_ofList] at hread
  unfold startsMarkup
  split
  · next rest =>
      have hname : Tag.nameStop? (Text.bytes ('<' :: rest)) 1 =
          (Tag.readName? rest).map fun found => 1 + byteLength found.1 :=
        Tag.nameStop?_eq ['<'] rest
      rw [startsMarkupBytes?, hname]
      cases Declaration.starts ('<' :: rest) with
      | true => rfl
      | false =>
          cases hlead : Text.after? ['<', '/'] ('<' :: rest) with
          | none =>
              have hnone : EndTag.read? ⟨0, '<' :: rest⟩ = none := by
                unfold EndTag.read?
                split
                · next cs hcs =>
                    cases hcs
                    cases hlead.symm.trans (Text.after?_append ['<', '/'] cs)
                · rfl
              simp [hnone]
          | some _ => simp [hend]
  · next hne =>
      have hstarts : Declaration.starts cs = false := by
        rw [← Bool.not_eq_true, Declaration.starts_iff]
        rintro (⟨body, rfl⟩ | ⟨body, rfl⟩)
        · exact hne _ rfl
        · exact hne _ rfl
      have hlead : Text.after? ['<', '/'] cs = none := by
        rw [Option.eq_none_iff_forall_ne_some]
        intro rest hrest
        exact hne _ (Text.after?_eq_some hrest)
      have hhead : cs.head? ≠ some '<' := Text.head?_ne_some hne
      simp [startsMarkupBytes?, hstarts, hlead, hhead]

theorem textOnto_fst (front cs : List Char) :
    (textOnto front cs).1 = front.reverse ++ (textOnto [] cs).1 := by
  rcases htext : textOnto [] cs with ⟨run, rest⟩
  rcases textOnto_eq_iff.1 htext with ⟨_, rfl, hcs, hrun⟩
  rw [textOnto_eq_iff.2 ⟨run, rfl, hcs, hrun⟩]

/-- The search from bracket to bracket stops where the text ends. -/
theorem textStop?_eq (front rest : List Char) :
    textStop? (front ++ '<' :: rest) (byteLength front) =
      some (byteLength front + byteLength (textOnto [] ('<' :: rest)).1) := by
  -- The induction goes from bracket to bracket: behind the next one less is left.
  induction hlength : rest.length using Nat.strongRecOn generalizing front rest with
  | ind n ih =>
      rcases Text.cuts_append (show '<'.toNat < 128 by decide) front rest with ⟨_, hcut, hbehind⟩
      rw [textStop?, hcut]
      dsimp only
      rw [startsMarkupBytes?_eq]
      cases hmarkup : startsMarkup ('<' :: rest) with
      | true =>
          rw [textOnto, if_pos hmarkup]
          rfl
      | false =>
          have htext : textOnto [] ('<' :: rest) = textOnto ['<'] rest := by
            rw [textOnto, hmarkup, if_neg (by decide)]
          dsimp only
          split
          · next hnone =>
              rw [hbehind] at hnone
              cases hnone
          · next behind hbehind' =>
              cases hbehind.symm.trans hbehind'
              rw [htext]
              by_cases hmem : '<' ∈ rest
              · rcases List.eq_append_cons_of_mem hmem with ⟨gap, more, rfl, hgap⟩
                have hlt : more.length < n := by
                  rw [← hlength, List.length_append, List.length_cons]
                  omega
                have hnext := ih _ hlt (front ++ '<' :: gap) more rfl
                have hstart : byteLength front + byteLength gap + 1 =
                    byteLength (front ++ '<' :: gap) := by
                  have hsize : '<'.utf8Size = 1 := rfl
                  rw [Text.byteLength_append, Text.byteLength_cons]
                  omega
                have hsplit : front ++ '<' :: (gap ++ '<' :: more) =
                    front ++ '<' :: gap ++ '<' :: more := by simp
                rw [Text.offsetOf?_append hgap, textOnto_gap hgap, textOnto_fst]
                dsimp only
                rw [hstart, hsplit, hnext]
                simp [Nat.add_assoc]
              · have hall := textOnto_gap hmem ['<'] []
                rw [List.append_nil] at hall
                rw [Text.offsetOf?_of_not_mem hmem, hall]
                simp [textOnto]

/-- The text in front of the first markup is as long as the search says. -/
theorem textLength?_eq (cs : List Char) :
    textLength? cs = some (byteLength (textOnto [] cs).1) := by
  by_cases hmem : '<' ∈ cs
  · rcases List.eq_append_cons_of_mem hmem with ⟨gap, rest, rfl, hgap⟩
    rw [textLength?, Text.offsetOf?_append hgap, textOnto_gap hgap, textOnto_fst]
    dsimp only
    rw [textStop?_eq, Text.byteLength_append]
    simp
  · have htext : textOnto [] cs = (cs, []) := by
      have hgap := textOnto_gap hmem [] []
      simpa [textOnto] using hgap
    rw [textLength?, Text.offsetOf?_of_not_mem hmem, htext]

end Scanner

/-! ## Closing elements -/

namespace Scanner

/-- Closes the innermost element of a name, with every open element looked up at its place. -/
def closeNamed? (name : String) (span : Span) (opened : List OpenTag) :
    Option (List Event × List OpenTag) :=
  match opened.findIdx? (fun tag => Tag.sameName tag.name name) with
  | none => some ([], opened)
  | some depth =>
      match (List.range depth).mapM (opened[·]?), opened[depth]? with
      | some inner, some target =>
          some (inner.flatMap (closeMissing span) ++ [.closed target.name span],
            opened.drop (depth + 1))
      | _, _ => none

/-- The places from the first on hold what stands there. -/
theorem mapM_getElem? {α : Type} (front inner rest : List α) :
    (List.range' front.length inner.length).mapM ((front ++ (inner ++ rest))[·]?) = some inner := by
  induction inner generalizing front with
  | nil => rfl
  | cons x inner ih =>
      have hnext := ih (front ++ [x])
      rw [List.length_append, List.append_assoc] at hnext
      have hhead : (front ++ (x :: inner ++ rest))[front.length]? = some x := by
        rw [List.getElem?_append_right (Nat.le_refl _), Nat.sub_self]
        rfl
      rw [List.length_cons, List.range'_succ, List.mapM_cons, hhead]
      exact congrArg (·.bind fun more => some (x :: more)) hnext

theorem closeNamed?_eq (name : String) (span : Span) (opened : List OpenTag) :
    closeNamed? name span opened = some (closeNamed name span opened) := by
  let inner := opened.takeWhile fun tag => !Tag.sameName tag.name name
  have hsplit : inner ++ opened.dropWhile (fun tag => !Tag.sameName tag.name name) = opened :=
    List.takeWhile_append_dropWhile
  have hinner : inner.findIdx? (fun tag => Tag.sameName tag.name name) = none := by
    rw [List.findIdx?_eq_none_iff]
    intro tag htag
    simpa using List.mem_takeWhile_imp htag
  rw [closeNamed?, closeNamed]
  cases hrest : opened.dropWhile fun tag => !Tag.sameName tag.name name with
  | nil =>
      rw [hrest, List.append_nil] at hsplit
      rw [← hsplit, hinner]
  | cons target outer =>
      have htarget : Tag.sameName target.name name = true := by
        have hhead := List.head?_dropWhile_not (fun tag => !Tag.sameName tag.name name) opened
        rw [hrest] at hhead
        simpa using hhead
      have hdepth :
          opened.findIdx? (fun tag => Tag.sameName tag.name name) = some inner.length := by
        rw [← hsplit, hrest, List.findIdx?_append, hinner, List.findIdx?_cons, if_pos htarget]
        simp
      have hlookups : (List.range inner.length).mapM (opened[·]?) = some inner := by
        have hall := mapM_getElem? [] inner (target :: outer)
        rwa [List.nil_append, ← hrest, hsplit, List.length_nil, ← List.range_eq_range'] at hall
      have hat : opened[inner.length]? = some target := by
        rw [← hsplit, hrest, List.getElem?_append_right (Nat.le_refl _), Nat.sub_self]
        rfl
      have hdrop : opened.drop (inner.length + 1) = outer := by
        rw [← hsplit, hrest, List.drop_append]
        simp
      rw [hdepth]
      dsimp only
      rw [hlookups, hat, hdrop]

end Scanner

/-! ## Steps -/

/-- A scanner that stands at an offset of its source. -/
structure OffsetScanner where
  index : Nat
  opened : List OpenTag

namespace OffsetScanner

/-- Reads a run of text, which may be empty. -/
def readText? (source : List Char) (s : OffsetScanner) : Option (List Event × OffsetScanner) :=
  match (Text.from? s.index source).bind Scanner.textLength? with
  | none => none
  | some length =>
      let stop := s.index + length
      if 0 < length then
        (Text.between? s.index stop source).map fun run =>
          ([.text (String.ofList run) (.between s.index stop)], { s with index := stop })
      else some ([], s)

/-- Opens the element of a start tag, and goes on where the span of the tag ends. -/
def openTag? (source : List Char) (tag : StartTag) (opened : List OpenTag) :
    Option (List Event × OffsetScanner) :=
  let stop := tag.span.stop
  -- What follows the tag only matters for the line feed.
  let found := Scanner.openTag tag ⟨stop, []⟩ opened
  if !Scanner.isUnary tag && Tag.dropsFirstNewline tag.name then
    (Text.from? stop source).map fun rest =>
      (found.1, ⟨if rest.head? = some '\n' then stop + 1 else stop, found.2.opened⟩)
  else some (found.1, ⟨stop, found.2.opened⟩)

/-- Reads a declaration, a tag or a run of text. -/
def readMarkup? (source : List Char) (s : OffsetScanner) : Option (List Event × OffsetScanner) :=
  match Text.from? s.index source with
  | none => none
  | some rest =>
      if Text.offsetOf? ['<'] rest = some 0 then
        match Declaration.lengthBytes? rest with
        | none => none
        | some (some length) => some ([], { s with index := s.index + length })
        | some none =>
            match EndTag.readBytes? source s.index with
            | none => none
            | some (some tag) =>
                (Scanner.closeNamed? tag.name tag.span s.opened).map fun closed =>
                  (closed.1, ⟨tag.span.stop, closed.2⟩)
            | some none =>
                match StartTag.readBytes? source s.index with
                | none => none
                | some (some tag) => openTag? source tag s.opened
                | some none => readText? source s
      else readText? source s

/-- Reads the content of the raw text element `name`, with its end tag if it has one. -/
def readRaw? (source : List Char) (name : String) (s : OffsetScanner) :
    Option (List Event × OffsetScanner) :=
  match Text.from? s.index source with
  | none => none
  | some rest =>
      let (bodyLength, endLength) :=
        match RawText.end? name rest with
        | some ended => (byteLength ended.body, byteLength ended.endTag)
        | none => (byteLength rest, 0)
      match Text.upTo? bodyLength rest with
      | none => none
      | some body =>
          let stop := s.index + bodyLength
          let content := Scanner.rawEvents name body (.between s.index stop)
          if 0 < endLength then
            let last := stop + endLength
            (Scanner.closeNamed? name (.between stop last) s.opened).map fun closed =>
              (content ++ closed.1, ⟨last, closed.2⟩)
          else some (content, { s with index := stop })

/-- Reads on by one step, which may stay where it is. -/
def step? (source : List Char) (s : OffsetScanner) : Option (List Event × OffsetScanner) :=
  match Scanner.rawName? s.opened with
  | some name => readRaw? source name s
  | none => readMarkup? source s

end OffsetScanner

namespace Scanner

variable {source : String} {s next : Scanner} {events : List Event} {c after : Cursor}
  {tag : StartTag} {run rest : List Char}

/-- The offset at which a scanner stands. -/
def offsets (s : Scanner) : OffsetScanner :=
  ⟨s.cursor.offset, s.opened⟩

/-! ### Steps in any source -/

/-- Text is cut out of the source as long as it is. -/
theorem offsets_readText? (hs : s.cursor.At source)
    (htext : textOnto [] s.cursor.rest = (run, rest)) (hrun : run ≠ []) :
    s.offsets.readText? source.toList =
      some ([.text (String.ofList run)
          (.between s.cursor.offset (s.cursor.offset + byteLength run))],
        ⟨s.cursor.offset + byteLength run, s.opened⟩) := by
  have hindex : s.offsets.index = s.cursor.offset := rfl
  have htakes : s.cursor.Takes run (s.cursor.advance run rest) :=
    Cursor.takes_advance (by simpa [htext] using textOnto_eq [] s.cursor.rest)
  have hcut := hs.between?_eq htakes
  rw [htakes.offset_eq] at hcut
  rw [OffsetScanner.readText?, hindex, hs.from?_eq, Option.bind_some, textLength?_eq, htext]
  dsimp only
  rw [if_pos (Text.byteLength_pos hrun), hcut]
  rfl

/-- Without text to read the scanner stays where it is. -/
theorem offsets_readText?_nil (hs : s.cursor.At source)
    (htext : (textOnto [] s.cursor.rest).1 = []) :
    s.offsets.readText? source.toList = some ([], s.offsets) := by
  have hindex : s.offsets.index = s.cursor.offset := rfl
  rw [OffsetScanner.readText?, hindex, hs.from?_eq, Option.bind_some, textLength?_eq, htext]
  rfl

/-- The readers of markup are tried one after the other, and spans of tags are clamped. -/
theorem offsets_readMarkup? (hs : s.cursor.At source) :
    s.offsets.readMarkup? source.toList =
      match Declaration.read? s.cursor.rest with
      | some found => some ([], ⟨s.cursor.offset + byteLength found.1, s.opened⟩)
      | none =>
          match EndTag.read? s.cursor with
          | some found =>
              let closed := closeNamed found.1.name found.1.clamped.span s.opened
              some (closed.1, ⟨found.1.clamped.span.stop, closed.2⟩)
          | none =>
              match StartTag.read? s.cursor with
              | some found => OffsetScanner.openTag? source.toList found.1.clamped s.opened
              | none => s.offsets.readText? source.toList := by
  have hindex : s.offsets.index = s.cursor.offset := rfl
  rw [OffsetScanner.readMarkup?, hindex, hs.from?_eq]
  dsimp only
  rw [Declaration.lengthBytes?_eq, EndTag.readBytes?_eq hs, StartTag.readBytes?_eq hs]
  by_cases hhead : s.cursor.rest.head? = some '<'
  · rw [if_pos (Text.offsetOf?_eq_zero_iff.2 hhead)]
    cases Declaration.read? s.cursor.rest with
    | some found => rfl
    | none =>
        cases EndTag.read? s.cursor with
        | some found =>
            dsimp only [Option.map_some, Option.map_none]
            rw [closeNamed?_eq]
            rfl
        | none =>
            cases StartTag.read? s.cursor with
            | some found => rfl
            | none => rfl
  · have hne : ∀ rest, s.cursor.rest ≠ '<' :: rest := by
      intro rest hrest
      exact hhead (by rw [hrest]; rfl)
    rcases no_markup hne with ⟨hdecl, hend, hstart⟩
    rw [if_neg (fun heq => hhead (Text.offsetOf?_eq_zero_iff.1 heq)), hdecl, hend, hstart]

/-! ### Steps in short sources -/

/-- What a step comes to, if a scanner that cannot read on stays where it is. -/
def outcome (s : Scanner) : Option (List Event × Scanner) → List Event × OffsetScanner
  | some (events, next) => (events, next.offsets)
  | none => ([], s.offsets)

theorem dropNewline_offset (tag : StartTag) (c : Cursor) :
    (dropNewline tag c).offset =
      if !isUnary tag && Tag.dropsFirstNewline tag.name then
        if c.rest.head? = some '\n' then c.offset + 1 else c.offset
      else c.offset := by
  unfold dropNewline
  split
  · next cs hcs =>
      have hhead : c.rest.head? = some '\n' := by rw [hcs]; rfl
      rw [if_pos hhead]
      split
      · rfl
      · rfl
  · next hne =>
      have hhead : c.rest.head? ≠ some '\n' := Text.head?_ne_some hne
      rw [if_neg hhead, ite_self]

/-- The line feed behind a start tag is looked for where the tag ends. -/
theorem offsets_openTag? (hafter : after.At source) (hspan : tag.span.stop = after.offset)
    (opened : List OpenTag) :
    OffsetScanner.openTag? source.toList tag opened =
      some ((openTag tag after opened).1, (openTag tag after opened).2.offsets) := by
  have hnext : (openTag tag after opened).2.offsets =
      ⟨(dropNewline tag after).offset, (openTag tag ⟨after.offset, []⟩ opened).2.opened⟩ := rfl
  rw [OffsetScanner.openTag?, hspan, hnext, hafter.from?_eq, dropNewline_offset]
  cases !isUnary tag && Tag.dropsFirstNewline tag.name with
  | false => rfl
  | true => rfl

/-- Between two cursors of a short source the span is as it is. -/
theorem between_eq (hc : c.At source) (htakes : c.Takes run after)
    (hsize : byteLength source.toList ≤ Span.maxOffset) :
    Span.between c.offset after.offset = ⟨c.offset, after.offset⟩ :=
  (hc.covers htakes).clamped_eq hsize

theorem offsets_readText?_outcome (hs : s.cursor.At source)
    (hsize : byteLength source.toList ≤ Span.maxOffset) :
    s.offsets.readText? source.toList = some (s.outcome s.readText?) := by
  rcases htext : textOnto [] s.cursor.rest with ⟨run, rest⟩
  by_cases hrun : run = []
  · subst hrun
    have hread : readText? s = none := by simp [readText?, htext]
    rw [offsets_readText?_nil hs (by rw [htext]), hread]
    rfl
  · have hread := readText?_eq_some_iff.2 ⟨run, rest, htext, hrun, rfl, rfl⟩
    have htakes : s.cursor.Takes run (s.cursor.advance run rest) :=
      Cursor.takes_advance (by simpa [htext] using textOnto_eq [] s.cursor.rest)
    have hspan := between_eq hs htakes hsize
    rw [htakes.offset_eq] at hspan
    rw [offsets_readText? hs htext hrun, hread, hspan]
    rfl

theorem offsets_readMarkup?_outcome (hs : s.cursor.At source)
    (hsize : byteLength source.toList ≤ Span.maxOffset) :
    s.offsets.readMarkup? source.toList = some (s.outcome s.readMarkup?) := by
  rw [offsets_readMarkup? hs]
  unfold readMarkup?
  cases Declaration.read? s.cursor.rest with
  | some found => rfl
  | none =>
      cases hend : EndTag.read? s.cursor with
      | some found =>
          rcases EndTag.read?_eq_some_iff.1 hend with ⟨name, trailing, _, _, htag⟩
          have hstop : found.1.span.stop = found.2.offset := by rw [htag]
          dsimp only
          rw [EndTag.clamped_eq hs hend hsize, hstop]
          rfl
      | none =>
          cases hstart : StartTag.read? s.cursor with
          | some found =>
              rcases StartTag.read?_takes hstart with ⟨taken, _, htakes, hspan⟩
              dsimp only
              rw [StartTag.clamped_eq hs hstart hsize]
              exact offsets_openTag? (hs.takes htakes) (by rw [hspan]) s.opened
          | none => exact offsets_readText?_outcome hs hsize

/-- Raw content ends where its end tag is found, or with the source. -/
theorem offsets_readRaw?_outcome (hs : s.cursor.At source)
    (hsize : byteLength source.toList ≤ Span.maxOffset) (name : String) :
    s.offsets.readRaw? source.toList name = some (s.outcome (s.readRaw name)) := by
  have hindex : s.offsets.index = s.cursor.offset := rfl
  rw [OffsetScanner.readRaw?, hindex, hs.from?_eq, readRaw]
  dsimp only
  cases hend : RawText.end? name s.cursor.rest with
  | none =>
      have hcut : Text.upTo? (byteLength s.cursor.rest) s.cursor.rest = some s.cursor.rest :=
        Text.upTo?_eq_some_iff.2 ⟨[], by simp, rfl⟩
      have htakes : s.cursor.Takes s.cursor.rest (s.cursor.advance s.cursor.rest []) :=
        Cursor.takes_advance (List.append_nil _).symm
      have hspan := between_eq hs htakes hsize
      rw [htakes.offset_eq] at hspan
      dsimp only
      rw [hcut]
      dsimp only
      rw [hspan]
      rfl
  | some ended =>
      rcases RawText.end?_eq_some hend with ⟨hsplit, hne⟩
      rw [List.append_assoc] at hsplit
      have hcut : Text.upTo? (byteLength ended.body) s.cursor.rest = some ended.body :=
        Text.upTo?_eq_some_iff.2 ⟨ended.endTag ++ ended.rest, hsplit, rfl⟩
      have hbody := Cursor.takes_advance hsplit
      have hclose : (s.cursor.advance ended.body (ended.endTag ++ ended.rest)).Takes ended.endTag
          ((s.cursor.advance ended.body (ended.endTag ++ ended.rest)).advance ended.endTag
            ended.rest) :=
        Cursor.takes_advance rfl
      have hspan := between_eq hs hbody hsize
      have hspan' := between_eq (hs.takes hbody) hclose hsize
      rw [hclose.offset_eq, hbody.offset_eq] at hspan'
      rw [hbody.offset_eq] at hspan
      have hpos := Text.byteLength_pos hne
      dsimp only
      rw [hcut]
      dsimp only
      rw [if_pos hpos, closeNamed?_eq, hspan, hspan']
      rfl

theorem offsets_step? (hs : s.cursor.At source)
    (hsize : byteLength source.toList ≤ Span.maxOffset) :
    s.offsets.step? source.toList = some (s.outcome s.step?) := by
  have hopened : s.offsets.opened = s.opened := rfl
  rw [OffsetScanner.step?, hopened, step?]
  cases rawName? s.opened with
  | some name => exact offsets_readRaw?_outcome hs hsize name
  | none => exact offsets_readMarkup?_outcome hs hsize

end Scanner
end TemplateMarkup
