import TemplateMarkup.Check.Run
import TemplateMarkup.Proofs.Check.Block
import TemplateMarkup.Proofs.Scan.StartSlices
import TemplateMarkup.Proofs.Template.Spans

/-!
# The spans of a checked component

Of a component file only the content of its template block is parsed, cut out of the file. Then the
spans of the warnings are moved to their places in the file, and those of the template stay as they
are, counted from the start of the content:

* `Span.Covers.shift` — what a span covers in an excerpt, it covers further behind in the source,
* `parse_start_tag` — every element starts with its start tag,
* `Block.covers_templateBody?` — the content of the block has a place in the file, not at its start,
* `Block.templateBody?_brackets` — it stands between the tags of the first block in the events,
* `checkSource_component` — where the warnings and elements of a component stand in the file.

All offsets are exact. They are those of spans in 32 bits for files of less than 4 GiB.
-/

namespace TemplateMarkup

/-! ## Excerpts -/

theorem Text.prefix_of_byteLength_le {cs ds cs' ds' : List Char} (h : cs ++ cs' = ds ++ ds')
    (hle : byteLength cs ≤ byteLength ds) : cs <+: ds := by
  rcases List.append_eq_append_iff.1 h with ⟨more, rfl, _⟩ | ⟨more, rfl, _⟩
  · exact List.prefix_append cs more
  · rw [byteLength_append] at hle
    have hnil : more = [] := eq_nil_of_byteLength (by omega)
    simp [hnil]

namespace Span.Covers

variable {source body : String} {span span' : Span} {inside inside' : List Char}

/-- What a span covers in an excerpt, it covers further behind in the source. -/
theorem shift (hbody : Covers source span body.toList) (h : Covers body span' inside) :
    Covers source (span'.shift span.start) inside := by
  rcases hbody with ⟨front, back, hsource, rfl⟩
  rcases h with ⟨front', back', hinside, rfl⟩
  refine ⟨front ++ front', back' ++ back, by simp [hsource, hinside], ?_⟩
  simp only [Span.shift, Text.byteLength_append, Span.mk.injEq]
  omega

/-- Of two spans with one start, what the shorter one covers is the start of the other. -/
theorem isPrefix (h : Covers source span inside) (h' : Covers source span' inside')
    (hstart : span.start = span'.start) (hstop : span.stop ≤ span'.stop) : inside <+: inside' := by
  rcases h with ⟨front, back, hsource, rfl⟩
  rcases h' with ⟨front', back', hsource', rfl⟩
  simp only at hstart hstop
  rw [hsource, List.append_assoc, List.append_assoc] at hsource'
  -- Fronts of one source with the same length are the same.
  have hfront : front = front' := by
    rcases Text.prefix_of_byteLength_le hsource' (Nat.le_of_eq hstart) with ⟨more, rfl⟩
    have hnil : more = [] := by
      rw [Text.byteLength_append] at hstart
      exact Text.eq_nil_of_byteLength (by omega)
    simp [hnil]
  subst hfront
  exact Text.prefix_of_byteLength_le (List.append_cancel_left hsource') (by omega)

end Span.Covers

/-! ## Elements start with their start tags -/

namespace StartTag

/-- A start tag starts with its name. -/
theorem read?_covers_name {source : String} {c last : Cursor} {tag : StartTag}
    (hc : c.At source) (h : read? c = some (tag, last)) :
    ∃ more, Span.Covers source tag.span ('<' :: tag.name.toList ++ more) := by
  rcases read?_eq_some h with ⟨cs, name, rest, hcs, hname, htag, hspan, hattributes⟩
  have hlead : c.Takes ('<' :: name) (c.advance ('<' :: name) rest) :=
    Cursor.takes_advance (by rw [hcs, (Tag.readName?_eq_some hname).1, List.cons_append])
  rcases Tag.readAttributes?_takes hattributes with ⟨more, hmore⟩
  refine ⟨more, ?_⟩
  rw [hspan, htag, String.toList_ofList]
  exact hc.covers (hlead.trans hmore)

end StartTag

variable {options : Options} {source : String} {parsed : Parsed}

theorem covers_name_of_scan {tag : StartTag} {unary : Bool}
    (h : .opened tag unary ∈ scan source) :
    ∃ more, Span.Covers source tag.span ('<' :: tag.name.toList ++ more) := by
  rcases exists_read?_of_scan h with ⟨c, last, hplace, hread⟩
  exact StartTag.read?_covers_name hplace hread

/-- Every element starts with its start tag. -/
theorem parse_start_tag (h : parse options source = .ok parsed) {id : ElementId} {e : Element}
    (he : parsed.template.elements[id]? = some e) :
    ∃ tag unary, .opened tag unary ∈ scan source ∧
      e.tag = tag.name ∧ e.span.start = tag.span.start ∧ tag.span.stop ≤ e.span.stop := by
  -- The elements are numbered in the order of their start events.
  have hlt : id < Event.startCount (scan source) := by
    rw [← Outline.length_headers_ofEvents, ← parse_headers h, Template.length_headers]
    exact (Array.getElem?_eq_some_iff.1 he).1
  rcases Event.exists_start hlt with ⟨before, tag, unary, after, hscan, rfl⟩
  have hreplay := (reads_scan source).replay
  rw [hscan] at hreplay
  rcases Event.exists_enclosing hreplay with ⟨opens, hopens, _⟩
  refine ⟨tag, unary, by simp [hscan], ?_⟩
  cases unary with
  | true =>
      rcases parse_unary h hscan hopens with ⟨e', he', hheader⟩
      cases he.symm.trans he'
      have hspan : e.span = tag.span := congrArg Header.span hheader
      exact ⟨congrArg Header.tag hheader, by rw [hspan], by rw [hspan]⟩
  | false =>
      rcases parse_matched h hscan hopens with ⟨e', inside, span, rest, he', rfl, _, hheader⟩
      cases he.symm.trans he'
      have hspan : e.span = tag.span.cover span := congrArg Header.span hheader
      have htimeline := timeline_scan source
      rw [hscan] at htimeline
      have hopened : .opened tag false ∈
          before ++ .opened tag false :: (inside ++ .closed tag.name span :: rest) := by
        simp
      have hclosed : .closed tag.name span ∈ inside ++ .closed tag.name span :: rest := by
        simp
      -- The end event stands further behind, so the element starts with its tag.
      have hlt := (htimeline.le_place hopened rfl).2
      have hle : tag.span.start ≤ span.start :=
        (htimeline.behind rfl).start_le_closed (Nat.le_of_lt hlt) hclosed
      refine ⟨congrArg Header.tag hheader, ?_, ?_⟩
      · rw [hspan]
        exact Nat.min_eq_left hle
      · rw [hspan]
        exact Nat.le_max_left _ _

/-- The slice of an element starts with its tag. -/
theorem parse_covers_tag (h : parse options source = .ok parsed) {id : ElementId} {e : Element}
    (he : parsed.template.elements[id]? = some e) :
    ∃ inside, e.span.Covers source inside ∧ '<' :: e.tag.toList <+: inside := by
  rcases parse_start_tag h he with ⟨tag, unary, hopened, htag, hstart, hstop⟩
  rcases covers_name_of_scan hopened with ⟨more, hcovers⟩
  rcases ((parse_within h).1 id e he).span.covers with ⟨inside, hinside⟩
  have hprefix := hcovers.isPrefix hinside hstart.symm hstop
  rw [htag]
  exact ⟨inside, hinside, (List.prefix_append _ more).trans hprefix⟩

/-! ## The template block of a component -/

/-- The content of the block has a place in the file, behind the start tag of the block. -/
theorem Block.covers_templateBody? {r : Span} (h : Block.templateBody? source = some r) :
    0 < r.start ∧ ∃ content, r.Covers source content := by
  rcases Block.reads_of_templateBody? h with
    ⟨before, tag, rest, c, hscan, hbefore, htag, hbody, hplace, hoffset, hreads⟩
  have hlasting : Scanner.Lasting ⟨tag.name, tag.span⟩ := Block.lasting_template htag
  have hopened : [(⟨tag.name, tag.span⟩ : OpenTag)] = [] ++ [⟨tag.name, tag.span⟩] := rfl
  rcases hreads.fills hlasting hopened with
    ⟨content, tail, shared, left, span, missing, after, hfills, hending, rfl⟩
  rcases Block.scan_of_fills hfills hlasting hending.follows with ⟨own, closing, hown, rfl, rfl⟩
  have hinside := Block.balanced_inside hown
    (Block.ended_of_ending hplace hfills.rest_eq hending) c.offset
  have hr : r = ⟨tag.span.stop, span.start⟩ :=
    Option.some.inj (hbody.symm.trans (Block.Search.body_inBlock hinside))
  have hopened : .opened tag false ∈ scan source := by simp [hscan]
  rcases covers_name_of_scan hopened with ⟨more, hcovers⟩
  have hstart := hcovers.start_lt (by simp)
  rw [hr]
  refine ⟨Nat.lt_of_le_of_lt (Nat.zero_le _) hstart, content, ?_⟩
  have hcontent := hplace.covers (Cursor.takes_advance hfills.rest_eq)
  rw [← hoffset, hending.start_eq]
  exact hcontent

/-- The search for the template block follows the brackets of the events. There is a block exactly
when a start tag opens one, and its content then stands between the first such start tag and the end
event that belongs to it. Whenever an element ends, the count of open elements is not zero; and the
content is a slice of the source. -/
theorem Block.templateBody?_brackets (source : String) :
    ((Block.templateBody? source).isSome ↔
      ∃ before tag rest, scan source = before ++ .opened tag false :: rest ∧
        Block.Opens before tag) ∧
    (∀ r, Block.templateBody? source = some r ↔
      ∃ before tag inside span after,
        scan source = before ++ .opened tag false :: (inside ++ .closed tag.name span :: after) ∧
        Block.Opens before tag ∧ Block.Free before ∧ Event.Balanced inside ∧
        r = ⟨tag.span.stop, span.start⟩) ∧
    (∀ before name span rest, scan source = before ++ .closed name span :: rest →
      0 < (before.foldl Block.Search.step {}).depth) ∧
    ∀ r, Block.templateBody? source = some r →
      r.start ≤ r.stop ∧ r.stop ≤ Text.byteLength source.toList ∧
      Text.Boundary source r.start ∧ Text.Boundary source r.stop ∧
      (r.slice? source).isSome := by
  have hreplay : Event.replay? [] (scan source) = some [] := (reads_scan source).replay
  have hbalanced : Event.Balanced (scan source) := Event.balanced_of_replay? hreplay
  have hblock : ∀ r, Block.templateBody? source = some r ↔ _ := fun r =>
    Block.Search.body_foldl_iff hbalanced
  refine ⟨⟨fun hsome => ?_, ?_⟩, hblock, ?_, ?_⟩
  · rcases Option.isSome_iff_exists.1 hsome with ⟨r, hr⟩
    rcases (hblock r).1 hr with ⟨before, tag, _, _, _, hscan, hopens, _⟩
    exact ⟨before, tag, _, hscan, hopens⟩
  · rintro ⟨before, tag, rest, hscan, hopens⟩
    rcases Block.exists_first hopens rest with
      ⟨first, tag', rest', heq, hfirst, hfree⟩
    have hsplit : scan source = first ++ .opened tag' false :: rest' := hscan.trans heq
    rcases Block.Search.exists_end (hsplit ▸ hbalanced) hfirst with
      ⟨inside, span, after, rfl, hinside⟩
    rw [(hblock _).2 ⟨first, tag', inside, span, after, hsplit, hfirst, hfree, hinside, rfl⟩]
    rfl
  · intro before name span rest hscan
    rw [hscan, Event.replay?_append] at hreplay
    rcases Option.bind_eq_some_iff.1 hreplay with ⟨stack, hbefore, hrest⟩
    rw [Block.Search.depth_foldl hbefore rfl]
    -- With nothing open the end event could not be replayed.
    cases stack with
    | nil => cases hrest
    | cons top outer => exact Nat.succ_pos _
  · intro r hr
    rcases (Block.covers_templateBody? hr).2 with ⟨content, hcovers⟩
    have hplaced := hcovers.placed
    refine ⟨hplaced.start_le, hcovers.stop_le, hplaced.start, hplaced.stop, ?_⟩
    rw [hcovers.slice?_eq]
    rfl

namespace Check

theorem checkSource_of_body? {name body : String} {offset : Nat}
    (h : body? name source = some (offset, body)) (options : Options) (file : String) :
    checkSource options file name source =
      (parse options body).map fun parsed => some
        { file, source, template := parsed.template,
          warnings := parsed.warnings.map (·.shift offset) } := by
  unfold checkSource
  rw [h]
  dsimp only
  cases parse options body with
  | error error => rfl
  | ok parsed => rfl

theorem body?_of_isComponent {name : String} {r : Span} {content : List Char}
    (hname : isComponent name) (hblock : Block.templateBody? source = some r)
    (h : r.Covers source content) :
    body? name source = some (r.start, String.ofList content) := by
  unfold body?
  rw [if_pos hname, hblock]
  dsimp only
  rw [h.slice?_eq]
  rfl

end Check

/-- Checking a component reads the content of its template block on its own, which starts some way
into the file. The warnings are reported where they stand in the file. The elements have their spans
in the content: there the slice of an element starts with its tag, and in the file it stands as many
bytes further behind as the content does. -/
theorem checkSource_component (options : Options) (file name source : String) (r : Span)
    (hname : Check.isComponent name) (hblock : Block.templateBody? source = some r) :
    ∃ body, r.slice? source = some body ∧ 0 < r.start ∧
      Check.checkSource options file name source =
        (parse options body).map (fun parsed => some
          { file, source, template := parsed.template,
            warnings := parsed.warnings.map (·.shift r.start) }) ∧
      ∀ parsed, parse options body = .ok parsed →
        (∀ w ∈ parsed.warnings, ∃ text, w.span.slice? body = some text ∧
          (w.shift r.start).span.slice? source = some text) ∧
        ∀ (id : ElementId) (e : Element), parsed.template.elements[id]? = some e →
          ∃ text, e.span.slice? body = some text ∧
            (e.span.shift r.start).slice? source = some text ∧
            '<' :: e.tag.toList <+: text.toList := by
  rcases Block.covers_templateBody? hblock with ⟨hstart, content, hcontent⟩
  have hbody : r.Covers source (String.ofList content).toList := by
    rwa [String.toList_ofList]
  refine ⟨String.ofList content, hcontent.slice?_eq, hstart,
    Check.checkSource_of_body? (Check.body?_of_isComponent hname hblock hcontent) options file,
    fun parsed hparsed => ⟨fun w hw => ?_, fun id e he => ?_⟩⟩
  · rcases ((parse_within hparsed).2 w hw).covers with ⟨inside, hinside⟩
    exact ⟨_, hinside.slice?_eq, (hbody.shift hinside).slice?_eq⟩
  · rcases parse_covers_tag hparsed he with ⟨inside, hinside, htag⟩
    exact ⟨_, hinside.slice?_eq, (hbody.shift hinside).slice?_eq, by rwa [String.toList_ofList]⟩

/-- A paragraph that is left open, in a block behind another element. -/
theorem checkSource_component_paragraph :
    ∃ checked e, Check.checkSource {} "App.vue" "App.vue" "<b>é</b><template><p>x</template>" =
        .ok (some checked) ∧
      checked.template.elements[0]? = some e ∧ e.tag = "p" ∧ e.span = ⟨0, 4⟩ ∧
      ∃ text, (e.span.shift 19).slice? "<b>é</b><template><p>x</template>" = some text ∧
        '<' :: e.tag.toList <+: text.toList := by
  have hheader : ((parse {} "<p>x").map fun parsed =>
      parsed.template.elements[0]?.map Element.header).toOption =
      some (some ⟨"p", none, ⟨0, 4⟩⟩) := by
    decide +kernel
  have hslice : Span.slice? ⟨19, 23⟩ "<b>é</b><template><p>x</template>" = some "<p>x" := by
    decide +kernel
  rcases checkSource_component {} "App.vue" "App.vue" "<b>é</b><template><p>x</template>" ⟨19, 23⟩
    (by decide +kernel) (by decide +kernel) with ⟨body, hbody, _, hcheck, hspans⟩
  cases Option.some.inj (hbody.symm.trans hslice)
  cases h : parse {} "<p>x" with
  | error error =>
      rw [h] at hheader
      cases hheader
  | ok parsed =>
      rw [h] at hheader hcheck
      rcases Option.map_eq_some_iff.1 (Option.some.inj hheader) with ⟨e, he, heheader⟩
      rcases (hspans parsed h).2 0 e he with ⟨text, _, htext, htag⟩
      exact ⟨_, e, hcheck, he, congrArg Header.tag heheader, congrArg Header.span heheader, text,
        htext, htag⟩

/-- In the file itself, the span of an element of a component cuts out something else. -/
theorem checkSource_span_in_block :
    ∃ checked e, Check.checkSource {} "App.vue" "App.vue" "<template><p>x</p></template>" =
        .ok (some checked) ∧
      checked.template.elements[0]? = some e ∧ e.tag = "p" ∧
      e.span.slice? "<template><p>x</p></template>" = some "<templat" ∧
      ¬ ('<' :: e.tag.toList <+: "<templat".toList) := by
  have hheader : ((Check.checkSource {} "App.vue" "App.vue" "<template><p>x</p></template>").map
      fun checked => checked.bind fun checked =>
        checked.template.elements[0]?.map Element.header).toOption =
      some (some ⟨"p", none, ⟨0, 8⟩⟩) := by
    decide +kernel
  cases h : Check.checkSource {} "App.vue" "App.vue" "<template><p>x</p></template>" with
  | error error =>
      rw [h] at hheader
      cases hheader
  | ok checked =>
      rw [h] at hheader
      rcases Option.bind_eq_some_iff.1 (Option.some.inj hheader) with ⟨checked, rfl, hfirst⟩
      rcases Option.map_eq_some_iff.1 hfirst with ⟨e, he, heheader⟩
      have htag : e.tag = "p" := congrArg Header.tag heheader
      have hspan : e.span = ⟨0, 8⟩ := congrArg Header.span heheader
      refine ⟨checked, e, rfl, he, htag, ?_, ?_⟩
      · rw [hspan]
        decide +kernel
      · rw [htag]
        decide +kernel

end TemplateMarkup
