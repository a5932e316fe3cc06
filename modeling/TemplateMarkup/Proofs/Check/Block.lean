import TemplateMarkup.Proofs.Check.Search
import TemplateMarkup.Proofs.Scan.Content
import TemplateMarkup.Proofs.Scan.Starts

/-!
# The template block can be read on its own

`Block.templateBody?` finds the content of the template block in the events of a whole file, and the
content is then read again, cut out of the file. Both readings agree (`scan_templateBody`): they
report the same events, and what the content leaves open is closed with the same warnings, by the
end of the content in one and by what ends the block in the other (`Block.Ended`).
-/

namespace TemplateMarkup

open Event Scanner

variable {source : String} {r span : Span} {tag : StartTag}
  {events rest shared missing : List Event} {left : List OpenTag}

/-! ## Replays of shifted events -/

theorem replay?_map_shift (delta : Nat) (stack : List String) (events : List Event) :
    replay? stack (events.map (Event.shift delta)) = replay? stack events := by
  induction events generalizing stack with
  | nil => rfl
  | cons event events ih =>
      cases event with
      | opened tag unary => exact ih _
      | text content span => exact ih _
      | warned warning => exact ih _
      | closed name span =>
          cases stack with
          | nil => rfl
          | cons top outer =>
              rw [List.map_cons, Event.shift, replay?_closed_cons, replay?_closed_cons, ih]

/-- What is closed with a warning is what is open, innermost first. -/
theorem replay?_closeMissing_iff (span : Span) (opened : List OpenTag) (stack rest : List String) :
    replay? stack (opened.flatMap (closeMissing span)) = some rest ↔
      stack = names opened ++ rest := by
  induction opened generalizing stack with
  | nil => simp
  | cons tag opened ih =>
      rw [List.flatMap_cons, closeMissing, List.cons_append, List.cons_append, replay?_warned,
        List.nil_append]
      cases stack with
      | nil => simp
      | cons top outer =>
          rw [replay?_closed_cons]
          split
          · next heq => simp [ih, heq]
          · next hne => simpa using fun heq => absurd heq.symm hne

@[simp] theorem names_map_shift (delta : Nat) (opened : List OpenTag) :
    names (opened.map (OpenTag.shift delta)) = names opened := by
  simp [names]

/-! ## The block in a file -/

namespace Block

/-- The block of `tag` ends at `span`: at an end tag of its name, or at the end of the source, which
is reported as missing. -/
inductive Ended (source : String) (tag : StartTag) : Span → List Event → Prop where
  | own {name trailing : List Char} {span : Span} :
      EndTag.Written name trailing → Tag.sameName tag.name (String.ofList name) →
      Span.Covers source span (EndTag.chars name trailing) → Ended source tag span []
  | missing :
      Ended source tag (.empty (Text.byteLength source.toList))
        [.warned ⟨.missingEndTag tag.name, tag.span⟩]

theorem ended_of_ending {c : Cursor} {content tail : List Char} (hplace : c.At source)
    (hrest : c.rest = content ++ tail)
    (h : Ending ⟨tag.name, tag.span⟩ (c.offset + Text.byteLength content) tail span missing) :
    Ended source tag span missing := by
  have hend := hplace.takes (Cursor.takes_advance hrest)
  cases h with
  | @own name trailing rest hwritten hsame =>
      exact .own hwritten hsame (hend.covers (Cursor.takes_advance rfl))
  | missing =>
      rcases hend with ⟨front, hsource, hoffset⟩
      have hfront : source.toList = front := hsource.trans (List.append_nil front)
      have hsize : c.offset + Text.byteLength content = Text.byteLength source.toList := by
        rw [hfront]
        exact hoffset
      rw [hsize]
      exact .missing

theorem toLower_template {name : String} (h : Tag.sameName name "template") :
    name.toLower = "template" := by
  have hlower : "template".toLower = "template" := by decide +kernel
  simpa [Tag.sameName, hlower] using h

/-- Nothing but an end tag or the end of the source ends a template. -/
theorem lasting_template {block : OpenTag} (h : Tag.sameName block.name "template") :
    Lasting block := by
  have hname := toLower_template h
  constructor
  · rw [Tag.isRawText, hname]
    decide
  · intro next
    constructor
    · simp [endsParagraph, hname]
    · -- A start tag of the same name is that of a template, which cannot be left open.
      cases hsame : Tag.sameName block.name next.name with
      | false => simp [endsSibling, hsame]
      | true =>
          have hnext : "template" = next.name.toLower := by
            simpa [Tag.sameName, hname] using hsame
          have hclosed : Tag.canBeLeftOpen next.name = false := by
            rw [Tag.canBeLeftOpen, ← hnext]
            decide
          simp [endsSibling, hclosed]

/-- The content of the block, as it is read on its own. -/
theorem scan_of_fills {c : Cursor} {block : OpenTag} {content tail : List Char}
    (h : Fills block tail ⟨c, [block]⟩ content shared left) (hlasting : Lasting block)
    (hfollows : Follows tail) :
    ∃ (own : List Event) (closing : List OpenTag), scan (String.ofList content) =
        own ++ closing.flatMap (closeMissing (.empty (Text.byteLength content))) ∧
      shared = own.map (Event.shift c.offset) ∧ left = closing.map (OpenTag.shift c.offset) := by
  have hexcerpt : Excerpt c.offset block tail ⟨c, [block]⟩ (ofText (String.ofList content)) := by
    refine ⟨⟨?_, ?_⟩, rfl, hlasting, hfollows⟩
    · exact (Nat.zero_add _).symm
    · simpa [ofText, Cursor.ofText] using h.rest_eq
  rcases h.reads hexcerpt with ⟨own, closing, hreads, hshared, hleft⟩
  refine ⟨own, closing, ?_, hshared, hleft⟩
  have hzero : (ofText (String.ofList content)).cursor.offset + Text.byteLength content =
      Text.byteLength content := Nat.zero_add _
  rw [hzero] at hreads
  exact reads_iff.1 hreads

/-- The scanner behind the start tag of the block stands where the content starts, and nothing else
is open. -/
theorem reads_of_templateBody? (h : templateBody? source = some r) :
    ∃ before tag rest c, scan source = before ++ .opened tag false :: rest ∧ Balanced before ∧
      Tag.sameName tag.name "template" ∧
      (rest.foldl Search.step (Search.inBlock tag)).body = some r ∧
      c.At source ∧ c.offset = tag.span.stop ∧ Reads ⟨c, [⟨tag.name, tag.span⟩]⟩ rest := by
  have hbalanced : Balanced (scan source) := balanced_of_replay? (reads_scan source).replay
  rcases Search.exists_block hbalanced h with
    ⟨before, tag, rest, hscan, hopens, _, hbody⟩
  have hbefore : Balanced before := balanced_of_replay? hopens.1
  have htag := hopens.2
  rcases (reads_scan source).at_start (P := fun s => s.cursor.At source)
    (fun hs hstep => hstep.place hs) (Cursor.at_ofText source) hscan with
    ⟨t, stop, hplace, hread, hunary, hreplay, hreads⟩
  rcases StartTag.read?_takes hread with ⟨taken, _, htakes, hspan⟩
  refine ⟨before, tag, rest, stop, hscan, hbefore, htag, hbody, hplace.takes htakes, ?_, ?_⟩
  · rw [hspan]
  · -- A template drops no line feed, and before it all has been closed.
    have hname := toLower_template htag
    have hdrop : dropNewline tag stop = stop := by
      have hkeeps : Tag.dropsFirstNewline tag.name = false := by
        rw [Tag.dropsFirstNewline, hname]
        decide
      rcases dropNewline_cases tag stop with heq | ⟨_, _, _, hdrops, _⟩
      · exact heq
      · rw [hkeeps] at hdrops
        cases hdrops
    have hremaining : remaining tag t.opened = [] := by
      have hnames := hreplay.symm.trans (hbefore.replay? _)
      exact List.map_eq_nil_iff.1 (Option.some.inj hnames)
    rwa [hdrop, openedBy, ← hunary, if_neg Bool.false_ne_true, hremaining] at hreads

/-- What the content opens is closed inside the block. -/
theorem balanced_inside {body : String} {own : List Event} {closing : List OpenTag} {size : Nat}
    (hscan : scan body = own ++ closing.flatMap (closeMissing (.empty size)))
    (hended : Ended source tag span missing) (delta : Nat) :
    Balanced (own.map (Event.shift delta) ++
      ((closing.map (OpenTag.shift delta)).flatMap (closeMissing span) ++ missing)) := by
  have hreplay := (reads_scan body).replay
  rw [hscan, replay?_append] at hreplay
  rcases Option.bind_eq_some_iff.1 hreplay with ⟨stack, hown, hclosing⟩
  -- In the end just those elements are open that are closed then.
  have hstack := (replay?_closeMissing_iff _ _ _ _).1 hclosing
  have hmissing : replay? [] missing = some [] := by
    cases hended with
    | own _ _ _ => rfl
    | missing => rfl
  have hclosed : replay? stack ((closing.map (OpenTag.shift delta)).flatMap (closeMissing span)) =
      some [] := by
    rw [replay?_closeMissing_iff, names_map_shift]
    exact hstack
  have hshared : replay? [] (own.map (Event.shift delta)) = some stack := by
    rw [replay?_map_shift]
    exact hown
  apply balanced_of_replay?
  rw [replay?_append, hshared, Option.bind_some, replay?_append, hclosed]
  exact hmissing

end Block

/-- The content of the template block is read on its own as it is read in its file. In the file, the
block starts and ends with the events of its tags, and between these stand balanced events `inside`.
With all spans moved to their places in the file, the events of the content alone are the same,
except that the elements which the content leaves open end with an empty span at the end of the
content, and not with the span that ends the block; and that the missing end tag of the block itself
is not reported. -/
theorem scan_templateBody (source : String) (r : Span)
    (h : Block.templateBody? source = some r) :
    ∃ body before tag inside span after,
      r.slice? source = some body ∧
      scan source = before ++ .opened tag false :: (inside ++ .closed tag.name span :: after) ∧
      Balanced before ∧ Balanced inside ∧ Tag.sameName tag.name "template" ∧
      r = ⟨tag.span.stop, span.start⟩ ∧
      ∃ shared missing, ∃ left : List OpenTag,
        (scan body).map (Event.shift r.start) =
          shared ++ left.flatMap (closeMissing (.empty r.stop)) ∧
        inside = shared ++ (left.flatMap (closeMissing span) ++ missing) ∧
        Block.Ended source tag span missing := by
  rcases Block.reads_of_templateBody? h with
    ⟨before, tag, rest, c, hscan, hbefore, htag, hbody, hplace, hoffset, hreads⟩
  have hlasting : Lasting ⟨tag.name, tag.span⟩ := Block.lasting_template htag
  have hopened : [(⟨tag.name, tag.span⟩ : OpenTag)] = [] ++ [⟨tag.name, tag.span⟩] := rfl
  rcases hreads.fills hlasting hopened with
    ⟨content, tail, shared, left, span, missing, after, hfills, hending, rfl⟩
  rcases Block.scan_of_fills hfills hlasting hending.follows with ⟨own, closing, hown, rfl, rfl⟩
  have hended := Block.ended_of_ending hplace hfills.rest_eq hending
  have hinside := Block.balanced_inside hown hended c.offset
  have hr : r = ⟨tag.span.stop, span.start⟩ :=
    Option.some.inj (hbody.symm.trans (Block.Search.body_inBlock hinside))
  subst hr
  have hcovers := hplace.covers (Cursor.takes_advance hfills.rest_eq)
  have hstart : span.start = c.offset + Text.byteLength content := hending.start_eq
  refine ⟨String.ofList content, before, tag, _, span, after, ?_, hscan, hbefore, hinside, htag,
    rfl, own.map (Event.shift c.offset), missing, closing.map (OpenTag.shift c.offset), ?_, rfl,
    hended⟩
  · rw [hstart, ← hoffset]
    exact hcovers.slice?_eq
  · have hshift : Span.empty span.start =
        Span.shift c.offset (.empty (Text.byteLength content)) := by
      rw [hstart, Nat.add_comm]
      rfl
    rw [hown, List.map_append, hshift, map_shift_closeMissing, ← hoffset]

/-- A paragraph that the content leaves open, in a block behind another element. -/
theorem scan_templateBody_open_paragraph :
    Block.templateBody? "<b>é</b><template><p>x</template>" = some ⟨19, 23⟩ ∧
      ∃ body before tag inside span after,
        Span.slice? ⟨19, 23⟩ "<b>é</b><template><p>x</template>" = some body ∧
        scan "<b>é</b><template><p>x</template>" =
          before ++ .opened tag false :: (inside ++ .closed tag.name span :: after) ∧
        tag.span.stop = 19 ∧ span.start = 23 ∧
        ∃ shared missing, ∃ left : List OpenTag,
          (scan body).map (Event.shift 19) = shared ++ left.flatMap (closeMissing (.empty 23)) ∧
          inside = shared ++ (left.flatMap (closeMissing span) ++ missing) ∧
          Block.Ended "<b>é</b><template><p>x</template>" tag span missing := by
  have hbody : Block.templateBody? "<b>é</b><template><p>x</template>" = some ⟨19, 23⟩ := by
    decide +kernel
  rcases scan_templateBody _ _ hbody with
    ⟨body, before, tag, inside, span, after, hslice, hscan, _, _, _, hr, hagree⟩
  obtain ⟨hstart, hstop⟩ := Span.mk.inj hr
  exact ⟨hbody, body, before, tag, inside, span, after, hslice, hscan, hstart.symm, hstop.symm,
    hagree⟩

end TemplateMarkup
