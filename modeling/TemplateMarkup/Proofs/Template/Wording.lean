import TemplateMarkup.Proofs.Scan.RawBodies
import TemplateMarkup.Proofs.Scan.StartSlices
import TemplateMarkup.Proofs.Tag.Grammar
import TemplateMarkup.Proofs.Template.Attributes
import TemplateMarkup.Proofs.Template.Texts

/-!
# The wording of warnings

A warning names tags and attributes, and it quotes text. Names have no line feed in them. What is
quoted comes from the source, so that it has no characters but those of the source and those that
references stand for:

* `Warning.Kind.names`, `Warning.Kind.quotes` — what a warning names and what it quotes,
* `Text.Alphabet p` — a text with the property `p` in all of its characters keeps it when it is
  decoded or cut short,
* `Warning.Kind.Worded p kind` — no name has a line feed, and all quotes are written with `p`,
* `worded_scan`, `Element.ofStartTag_worded`, `Assembly.Worded.feed` — events, start tags and their
  assembly are worded with the characters of the source,
* `parse_worded` — and so are all warnings.
-/

namespace TemplateMarkup

/-! ## Names and quotes -/

namespace Warning.Kind

/-- The tags and attributes that a warning names. -/
@[simp] def names : Kind → List String
  | missingEndTag tag => [tag]
  | implicitlyClosed tag closer => [tag, closer]
  | elseWithoutIf _ tag => [tag]
  | unstableRoot reason => [reason]
  | interpolationInAttribute name _ => [name]
  | modelOnLoopItem tag _ => [tag]
  | _ => []

/-- The texts that a warning quotes. -/
@[simp] def quotes : Kind → List String
  | malformedTag fragment => [fragment]
  | invalidLoop expression => [expression]
  | elseWithoutIf condition _ => condition.toList
  | textBetweenBranches text => [text]
  | textOutsideRoot text => [text]
  | interpolationInAttribute _ value => [value]
  | modelOnLoopItem _ item => [item]
  | _ => []

/-- Names without line feeds, and quotes that are written with `p`. -/
structure Worded (p : Char → Prop) (kind : Kind) : Prop where
  names : ∀ name ∈ kind.names, '\n' ∉ name.toList
  quotes : ∀ quote ∈ kind.quotes, ∀ c ∈ quote.toList, p c

end Warning.Kind

/-! ## Alphabets -/

/-- The characters with the property `p` are enough to write what a text of them is decoded to and
cut short to. -/
structure Text.Alphabet (p : Char → Prop) : Prop where
  space : p ' '
  point : p '.'
  decodeText : ∀ cs : List Char, (∀ c ∈ cs, p c) → ∀ c ∈ Reference.decodeText cs, p c
  decodeAttribute : ∀ cs : List Char, (∀ c ∈ cs, p c) → ∀ c ∈ Reference.decodeAttribute cs, p c

theorem Text.alphabet_all : Alphabet fun _ => True :=
  ⟨trivial, trivial, fun _ _ _ _ => trivial, fun _ _ _ _ => trivial⟩

/-- Without ampersands there is nothing to decode, so no line feed comes in. -/
theorem Text.alphabet_plain : Alphabet fun c => c ≠ '\n' ∧ c ≠ '&' where
  space := by decide
  point := by decide
  decodeText := by
    intro cs hcs
    rwa [Reference.decodeText, Reference.decode_of_not_mem fun hmem => (hcs _ hmem).2 rfl]
  decodeAttribute := by
    intro cs hcs
    rwa [Reference.decodeAttribute, Reference.decode_of_not_mem fun hmem => (hcs _ hmem).2 rfl]

/-! ## Start tags -/

structure Attribute.Worded (p : Char → Prop) (a : Attribute) : Prop where
  name : '\n' ∉ a.name.toList
  value : ∀ c ∈ a.value.toList, p c

structure StartTag.Worded (p : Char → Prop) (tag : StartTag) : Prop where
  name : '\n' ∉ tag.name.toList
  attributes : ∀ a ∈ tag.attributes, a.Worded p

/-- What is read, and what is left to read, has the characters of what there was. -/
theorem Cursor.Takes.keeps {p : Char → Prop} {c d : Cursor} {taken : List Char}
    (h : c.Takes taken d) (hc : ∀ x ∈ c.rest, p x) :
    (∀ x ∈ taken, p x) ∧ ∀ x ∈ d.rest, p x := by
  rw [h.rest_eq] at hc
  exact List.forall_mem_append.1 hc

namespace Tag

variable {p : Char → Prop} {c start stop last : Cursor} {cs text name part rest value : List Char}
  {attributes : List Attribute} {selfClosing : Bool} {room : Nat}

theorem newline_not_mem_part (h : readPart? cs = some (part, rest)) : '\n' ∉ part := by
  cases cs with
  | nil => cases h
  | cons c cs =>
      simp only [readPart?] at h
      split at h
      · next hc =>
          cases h
          intro hmem
          rcases List.mem_cons.1 hmem with rfl | hmem
          · cases hc
          · cases List.mem_takeWhile_imp hmem
      · cases h

theorem newline_not_mem_name (h : readName? cs = some (name, rest)) : '\n' ∉ name := by
  unfold readName? at h
  split at h
  · next hlong =>
      split at h
      · cases h
        unfold readLongName? at hlong
        split at hlong
        · next hfirst =>
            split at hlong
            · next hsecond =>
                cases hlong
                simp [newline_not_mem_part hfirst, newline_not_mem_part hsecond]
            · cases hlong
              exact newline_not_mem_part hfirst
        · exact newline_not_mem_part hlong
      · cases h
  · cases h

/-- Attribute names end before a blank. -/
theorem newline_not_mem_token (h : Token.next? c = some (start, .name text, stop)) :
    '\n' ∉ text := by
  rcases Token.next?_eq_some h with ⟨_, _, hread, _⟩
  cases hrest : start.rest with
  | nil =>
      rw [hrest] at hread
      cases hread
  | cons d ds =>
      rw [hrest] at hread
      rcases Token.read?_cons_cases hread with ⟨hd, heq⟩ | ⟨_, hquoted⟩ | ⟨heq, _⟩ | ⟨_, heq⟩ | heq
      · cases heq
        intro hmem
        rcases List.mem_cons.1 hmem with rfl | hmem
        · cases hd
        · cases List.mem_takeWhile_imp hmem
      · unfold Token.readQuoted at hquoted
        split at hquoted <;> cases hquoted
      · cases heq
      · cases heq
      · cases heq

theorem readAssigned?_keeps {token : Token} (hp : Text.Alphabet p)
    (htoken : start.Takes token.lexeme stop) (hstart : ∀ x ∈ start.rest, p x)
    (h : readAssigned? start token stop = some (value, last)) : ∀ x ∈ value, p x := by
  rcases readAssigned?_cases h with ⟨mark, body, rfl, rfl, _⟩ | ⟨d, raw, hraw, rfl, _⟩
  · have hlexeme := (htoken.keeps hstart).1
    refine hp.decodeAttribute body fun x hx => hlexeme x ?_
    simp [Token.lexeme, hx]
  · refine hp.decodeAttribute (d :: raw) fun x hx => hstart x ?_
    rw [← hraw] at hx
    exact (List.takeWhile_prefix _).subset hx

theorem readValue?_keeps (hp : Text.Alphabet p) (hc : ∀ x ∈ c.rest, p x)
    (h : readValue? c = some (value, stop)) : ∀ x ∈ value, p x := by
  unfold readValue? at h
  split at h
  · next hequals =>
      rcases Token.next?_takes hequals with ⟨⟨_, hblanks⟩, hsign⟩
      split at h
      · next hnext =>
          rcases Token.next?_takes hnext with ⟨⟨_, hblanks'⟩, htoken⟩
          have hstart := (((hblanks.trans hsign).trans hblanks').keeps hc).2
          exact readAssigned?_keeps hp htoken hstart h
      · cases h
  · cases h
    simp

theorem readAttributes?_worded (hp : Text.Alphabet p) (hc : ∀ x ∈ c.rest, p x)
    (h : readAttributes? room c = some (attributes, selfClosing, last)) :
    ∀ a ∈ attributes, a.Worded p := by
  induction room generalizing c attributes with
  | zero =>
      rcases readAttributes?_cases h with ⟨_, _, rfl⟩ | ⟨_, _, _, _, _, room', _, hroom, _⟩
      · simp
      · cases hroom
  | succ room ih =>
      rcases readAttributes?_cases h with
        ⟨_, _, rfl⟩ |
        ⟨start, text, afterName, value, stop, _, more, hroom, hnext, _, hvalue, hmore, rfl⟩
      · simp
      · cases hroom
        rcases Token.next?_takes hnext with ⟨⟨blanks, hblanks⟩, hname⟩
        rcases readValue?_takes hvalue with ⟨taken, htaken⟩
        have hafterName := ((hblanks.trans hname).keeps hc).2
        have hfirst : Attribute.Worded p
            ⟨String.ofList text, String.ofList value, ⟨start.offset, stop.offset⟩⟩ :=
          ⟨by simpa using newline_not_mem_token hnext,
            by simpa using readValue?_keeps hp hafterName hvalue⟩
        exact List.forall_mem_cons.2 ⟨hfirst, ih (htaken.keeps hafterName).2 hmore⟩

end Tag

theorem StartTag.read?_worded {p : Char → Prop} {c last : Cursor} {tag : StartTag}
    (hp : Text.Alphabet p) (hc : ∀ x ∈ c.rest, p x) (h : read? c = some (tag, last)) :
    tag.Worded p := by
  rcases read?_eq_some h with ⟨cs, name, rest, hcs, hname, htag, _, hattributes⟩
  have hadvance : c.Takes ('<' :: name) (c.advance ('<' :: name) rest) :=
    Cursor.takes_advance (by rw [hcs, (Tag.readName?_eq_some hname).1, List.cons_append])
  refine ⟨?_, Tag.readAttributes?_worded hp (hadvance.keeps hc).2 hattributes⟩
  rw [htag]
  simpa using Tag.newline_not_mem_name hname

/-! ## Events -/

def Event.Worded (p : Char → Prop) : Event → Prop
  | .opened tag _ => tag.Worded p
  | .closed _ _ => True
  | .text content _ => ∀ c ∈ content.toList, p c
  | .warned warning => warning.kind.Worded p

namespace Scanner

variable {p : Char → Prop} {source : String} {s next : Scanner} {events : List Event} {w : Warning}
  {tag : OpenTag} {opened : List OpenTag} {tail : List Char}

/-- What is left to read is written with `p`, and what is open has names without line feeds. -/
structure Worded (p : Char → Prop) (s : Scanner) : Prop where
  rest : ∀ c ∈ s.cursor.rest, p c
  opened : ∀ tag ∈ s.opened, '\n' ∉ tag.name.toList

theorem worded_missingEndTag (hopened : ∀ tag ∈ opened, '\n' ∉ tag.name.toList)
    (h : ∃ tag ∈ opened, w.kind = .missingEndTag tag.name) : w.kind.Worded p := by
  rcases h with ⟨tag, htag, hkind⟩
  rw [hkind]
  exact ⟨by simpa using hopened tag htag, by simp⟩

theorem keeps_fragment (hp : Text.Alphabet p) (htail : ∀ c ∈ tail, p c) :
    ∀ c ∈ (fragment tail).toList, p c := by
  unfold fragment
  split
  · simpa using htail
  · intro c hc
    rw [String.toList_append, String.toList_ofList] at hc
    rcases List.mem_append.1 hc with hc | hc
    · exact htail c (List.mem_of_mem_take hc)
    · have hpoint : c = '.' := by simpa using hc
      exact hpoint ▸ hp.point

/-- The names of a step are those of tags that are read. -/
theorem Step.worded (h : Step s events next) (hp : Text.Alphabet p) (hs : s.Worded p) :
    (∀ w, .warned w ∈ events → w.kind.Worded p) ∧ next.Worded p := by
  refine ⟨fun w hw => ?_, ?_, ?_⟩
  · rcases h.kind_cases hw with hmissing | ⟨tag, htag, closer, stop, hclosing, hkind⟩
    · exact worded_missingEndTag hs.opened hmissing
    · have hcloser := (StartTag.read?_worded hp hs.rest hclosing).name
      rw [hkind]
      refine ⟨?_, by simp⟩
      simpa using ⟨hs.opened tag htag, hcloser⟩
  · rcases h.takes with ⟨taken, htakes⟩
    exact (htakes.keeps hs.rest).2
  · have hnamed : ∀ (name : String) (span : Span), ∀ tag ∈ (closeNamed name span s.opened).2,
        '\n' ∉ tag.name.toList := by
      intro name span tag htag
      rcases closes_closeNamed name span s.opened with ⟨closing, hsplit, _⟩
      exact hs.opened tag (hsplit ▸ List.mem_append_right closing htag)
    cases h with
    | declaration _ _ => exact hs.opened
    | endTag _ _ _ => exact hnamed _ _
    | @startTag tag after _ _ _ hstart =>
        rcases closes_openTag tag after s.opened with ⟨closing, _, hsplit, _, heq⟩
        have hremaining : ∀ around ∈ remaining tag s.opened, '\n' ∉ around.name.toList :=
          fun around haround =>
            hs.opened around (hsplit ▸ List.mem_append_right closing haround)
        rw [heq]
        unfold openedBy
        split
        · exact hremaining
        · exact List.forall_mem_cons.2
            ⟨(StartTag.read?_worded hp hs.rest hstart).name, hremaining⟩
    | text _ _ _ _ _ _ => exact hs.opened
    | rawRest _ _ => exact hs.opened
    | rawEnded _ _ _ _ => exact hnamed _ _

theorem Reads.worded (h : Reads s events) (hp : Text.Alphabet p) (hs : s.Worded p)
    (hw : .warned w ∈ events) : w.kind.Worded p := by
  induction h with
  | done _ => exact worded_missingEndTag hs.opened (kind_of_mem_closeMissing hw)
  | step _ hstep _ ih =>
      rcases hstep.worded hp hs with ⟨hevents, hnext⟩
      rcases List.mem_append.1 hw with hmem | hmem
      · exact hevents w hmem
      · exact ih hnext hmem
  | malformed _ _ =>
      rcases kind_of_mem_malformed hw with hkind | hmissing
      · rw [hkind]
        refine ⟨by simp, ?_⟩
        simpa using keeps_fragment hp hs.rest
      · exact worded_missingEndTag hs.opened hmissing

end Scanner

/-- The events of a source are worded with its characters. -/
theorem worded_scan {p : Char → Prop} {source : String} (hp : Text.Alphabet p)
    (hsource : ∀ c ∈ source.toList, p c) : ∀ event ∈ scan source, event.Worded p := by
  intro event hevent
  cases event with
  | opened tag unary =>
      rcases exists_read?_of_scan hevent with ⟨c, last, ⟨front, hfront, _⟩, hread⟩
      refine StartTag.read?_worded hp (fun x hx => hsource x ?_) hread
      rw [hfront]
      exact List.mem_append_right front hx
  | closed name span => trivial
  | text content span =>
      rcases List.append_of_mem hevent with ⟨before, after, hsplit⟩
      have haccounted := scan_accounted source
      rw [hsplit] at haccounted
      rcases haccounted.covers_text with ⟨names, body, _, ⟨front, back, hfront, _⟩, rfl⟩
      intro c hc
      rw [String.toList_ofList] at hc
      refine hsource c ?_
      rw [hfront]
      simp [(RawText.contentOf_sublist names body).subset hc]
  | warned warning =>
      exact (reads_scan source).worded hp ⟨hsource, by simp [Scanner.ofText]⟩ hevent

/-! ## Warnings of a start tag -/

namespace Element

variable {p : Char → Prop} {e e' : Element} {id : ElementId} {name value condition : String}

/-- The tag, the attributes and the condition of an element are worded with `p`. -/
structure Worded (p : Char → Prop) (e : Element) : Prop where
  tag : '\n' ∉ e.tag.toList
  attributes : ∀ a ∈ e.attributes, a.Worded p
  elseCondition : ∀ condition ∈ e.directives.elseCondition, ∀ c ∈ condition.toList, p c

theorem Worded.trims (he : e.Worded p) (h : Trims e e') : e'.Worded p where
  tag := by
    have htag : e'.tag = e.tag := congrArg Skeleton.tag h.skeleton_eq
    rw [htag]
    exact he.tag
  attributes a ha := he.attributes a (h.attributes_subset ha)
  elseCondition := by
    have hcondition : e'.directives.elseCondition = e.directives.elseCondition :=
      congrArg Directives.Marks.elseCondition h.marks_eq
    rw [hcondition]
    exact he.elseCondition

/-- What is claimed is the value of an attribute. -/
theorem Mapped.mem_of_claim (he : e.Mapped) (h : (e.claim name).1 = some value) :
    ∃ a ∈ e.attributes, a.value = value := by
  have hlookup : e.attributeMap.lookup name = some value := by
    unfold claim at h
    split at h
    · cases h
    · next hlookup => rwa [hlookup]
  rw [he.lookup_eq] at hlookup
  rcases Option.map_eq_some_iff.1 hlookup with ⟨a, ha, hvalue⟩
  exact ⟨a, (List.mem_filter.1 (List.mem_of_getLast? ha)).1, hvalue⟩

/-- The condition of an else branch is the value of an attribute. -/
theorem Mapped.mem_of_elseCondition (he : e.Mapped) (hnone : e.directives.elseCondition = none)
    (h : condition ∈ (e.readCondition id).directives.elseCondition) :
    ∃ a ∈ e.attributes, a.value = condition := by
  rcases hclaim : e.claim "v-if" with ⟨ifValue, claimed⟩
  have hclaimed := claims_of_claim (by decide) hclaim
  simp only [readCondition, hclaim] at h
  split at h
  · have hkept : claimed.directives.elseCondition = some condition := h
    rw [hclaimed.directives_eq, hnone] at hkept
    cases hkept
  · rcases helse : claimed.claim "v-else" with ⟨isElse, claimed'⟩
    have htrims := hclaimed.toTrims.trans (claims_of_claim (by decide) helse).toTrims
    have hmapped := htrims.sheds.mapped he
    have hvalue : nonEmpty (claimed'.claim "v-else-if").1 = some condition := by
      rw [helse] at h
      exact h
    rcases hmapped.mem_of_claim (Option.filter_eq_some_iff.1 hvalue).1 with ⟨a, ha, heq⟩
    exact ⟨a, htrims.attributes_subset ha, heq⟩

theorem Worded.readCondition (he : e.Worded p) (hmapped : e.Mapped)
    (hnone : e.directives.elseCondition = none) (id : ElementId) :
    (e.readCondition id).Worded p := by
  rcases skeleton_readCondition id e with ⟨branches, _, hskeleton, hsheds⟩
  refine ⟨?_, fun a ha => he.attributes a (hsheds.attributes_subset ha), ?_⟩
  · have htag : (e.readCondition id).tag = e.tag := congrArg Skeleton.tag hskeleton
    rw [htag]
    exact he.tag
  · intro condition hcondition
    rcases hmapped.mem_of_elseCondition hnone hcondition with ⟨a, ha, rfl⟩
    exact (he.attributes a ha).value

/-- An element is worded like its start tag, and so are the warnings about it. -/
theorem ofStartTag_worded {options : Options} {t : Template} {parent : Option ElementId}
    {tag : StartTag} {warnings : List Warning} (htag : tag.Worded p)
    (h : ofStartTag options t id parent tag = .ok (e, warnings)) :
    e.Worded p ∧ ∀ w ∈ warnings, w.kind.Worded p := by
  rcases ofStartTag_eq_ok h with
    ⟨looped, keyed, ready, loopWarnings, keyWarnings, hloop, hkey, rfl, hread, rfl⟩
  have hunread : (unread tag parent).Worded p :=
    ⟨htag.name, htag.attributes, fun condition hcondition => by cases hcondition⟩
  have hlooped := trims_readLoop (unread tag parent)
  have hkeyed := (trims_readOnce (looped.readCondition id)).trans (trims_readKey _)
  rw [hloop] at hlooped
  rw [hkey] at hkeyed
  have hnone : looped.directives.elseCondition = none :=
    congrArg Directives.Marks.elseCondition hlooped.marks_eq
  have hcondition := (hunread.trims hlooped).readCondition
    (hlooped.sheds.mapped (mapped_unread tag parent)) hnone id
  have hready := hcondition.trims (hkeyed.trans (trims_ready t keyed))
  refine ⟨hready.trims (trims_readAttributes hread), fun w hw => ?_⟩
  simp only [List.mem_append, List.mem_flatMap] at hw
  rcases hw with ((hw | hw) | ⟨a, ha, hw⟩) | hw
  · have hw' : w ∈ ((unread tag parent).readLoop).2 := by rw [hloop]; exact hw
    rcases kind_of_mem_readLoop hw' with ⟨header, hclaim, hkind⟩
    rcases (mapped_unread tag parent).mem_of_claim hclaim with ⟨a, ha, rfl⟩
    rw [hkind]
    exact ⟨by simp,
      by simpa using (htag.attributes a ha).value⟩
  · have hw' : w ∈ (((looped.readCondition id).readOnce).readKey).2 := by rw [hkey]; exact hw
    rw [kind_of_mem_readKey hw']
    exact ⟨by simp, by simp⟩
  · rcases kind_of_mem_attributeWarnings hw with hkind | hkind
    · rw [hkind]
      exact ⟨by simpa using (hready.attributes a ha).name,
        by simpa using (hready.attributes a ha).value⟩
    · rw [hkind]
      exact ⟨by simp, by simp⟩
  · rcases kind_of_mem_modelWarnings hw with ⟨a, ha, hkind⟩
    rw [hkind]
    exact ⟨by simpa using hready.tag,
      by simpa using (hready.attributes a ha).value⟩

end Element

/-! ## Assembling -/

/-- The texts inside an element are written with `p`. -/
def Element.Written (p : Char → Prop) (e : Element) : Prop :=
  ∀ n ∈ e.children.toList, ∀ text ∈ n.content?, ∀ c ∈ text.toList, p c

theorem Element.Written.withChild {p : Char → Prop} {e : Element} {n : Node} (h : e.Written p)
    (hn : ∀ text ∈ n.content?, ∀ c ∈ text.toList, p c) : (Assembly.withChild n e).Written p := by
  intro m hm
  simp only [Assembly.withChild, Array.toList_push, List.mem_append, List.mem_singleton] at hm
  rcases hm with hm | rfl
  · exact h m hm
  · exact hn

namespace Assembly

variable {p : Char → Prop} {a b : Assembly} {id parent : ElementId} {e : Element}
  {options : Options} {size : Nat} {events : List Event}

/-- Text inside the elements and the warnings so far are worded with `p`. -/
structure Worded (p : Char → Prop) (a : Assembly) : Prop where
  texts : ∀ (id : ElementId) (e : Element), a.template.elements[id]? = some e → e.Written p
  warnings : ∀ w ∈ a.warnings.toList, w.kind.Worded p

theorem worded_empty : Worded p {} where
  texts := by
    intro id e he
    simp at he
  warnings := by simp

/-- Neither the root nor what is open has any text. -/
theorem Worded.of_eq (h : a.Worded p) (helements : b.template.elements = a.template.elements)
    (hwarnings : b.warnings = a.warnings) : b.Worded p where
  texts := by
    rw [helements]
    exact h.texts
  warnings := by
    rw [hwarnings]
    exact h.warnings

theorem Worded.warn (h : a.Worded p) {kind : Warning.Kind} (hkind : kind.Worded p) (span : Span) :
    (a.warn kind span).Worded p where
  texts := h.texts
  warnings := by
    intro w hw
    simp only [Assembly.warn, Array.toList_push, List.mem_append, List.mem_singleton] at hw
    rcases hw with hw | rfl
    · exact h.warnings w hw
    · exact hkind

theorem Worded.modify (h : a.Worded p) {f : Element → Element}
    (hf : ∀ e, e.Written p → (f e).Written p) : (a.modify id f).Worded p where
  texts := by
    intro i e he
    rcases getElem?_modify_cases he with ⟨old, hold, rfl | ⟨_, rfl⟩⟩
    · exact h.texts i e hold
    · exact hf old (h.texts i old hold)
  warnings := h.warnings

theorem Worded.warnElse (h : a.Worded p) (he : e.Worded p) : (a.warnElse e).Worded p := by
  refine h.warn ⟨by simpa using he.tag, ?_⟩ _
  simpa using he.elseCondition

theorem Worded.warnUnstable (h : a.Worded p) (e : Element) : (a.warnUnstable e).Worded p := by
  unfold Assembly.warnUnstable
  split
  · next htag =>
      refine h.warn ⟨?_, by simp⟩ _
      rcases htag with htag | htag
      · simp [htag]
      · simp [htag]
  · split
    · exact h.warn ⟨by simp, by simp⟩ _
    · exact h

theorem kind_of_droppedText {n : Node} {w : Warning} (h : droppedText n = some w) :
    ∃ text ∈ n.content?, w.kind = .textBetweenBranches (String.ofList (Text.trim text.toList)) := by
  unfold droppedText at h
  split at h
  · cases h
  · cases h
    exact ⟨_, rfl, rfl⟩
  · split at h
    · cases h
    · cases h
      exact ⟨_, rfl, rfl⟩

/-- Dropped text is quoted as it was written. -/
theorem Worded.dropText (h : a.Worded p) (parent : ElementId) : (a.dropText parent).Worded p := by
  refine ⟨?_, ?_⟩
  · have hmodify : (a.modify parent withoutText).Worded p := by
      refine h.modify fun e he n hn => ?_
      exact he n ((children_withoutText_sublist e).subset hn)
    rw [dropText_template]
    exact hmodify.texts
  · cases hparent : a.template.elements[parent]? with
    | none =>
        unfold Assembly.dropText
        rw [hparent]
        exact h.warnings
    | some e =>
        intro w hw
        rw [warnings_dropText hparent, List.mem_append] at hw
        rcases hw with hw | hw
        · exact h.warnings w hw
        · rcases List.mem_filterMap.1 hw with ⟨n, hn, hdropped⟩
          rcases kind_of_droppedText hdropped with ⟨text, htext, hkind⟩
          have hmem : n ∈ e.children.toList :=
            List.mem_reverse.1 ((List.takeWhile_prefix _).subset hn)
          rw [hkind]
          refine ⟨by simp, ?_⟩
          simpa using fun c hc =>
            h.texts parent e hparent n hmem text htext c (Text.mem_of_mem_trim hc)

theorem Worded.addBranch (h : a.Worded p) (head id : ElementId) (e : Element) :
    (a.addBranch head id e).Worded p :=
  h.modify fun _ he => he

/-- Linking an element reports its tag, its condition and the text that it drops. -/
theorem Links.worded (h : Links a id e b) (ha : a.Worded p) (he : e.Worded p) : b.Worded p := by
  cases h with
  | root _ _ =>
      have hroot : Worded p { a with template := { a.template with root := some id } } :=
        ha.of_eq rfl rfl
      refine Worded.warnUnstable ?_ e
      split
      · exact hroot.warnElse he
      · exact hroot
  | rootBranch _ _ _ _ => exact (ha.warnUnstable e).addBranch _ _ _
  | rootOrphan _ _ _ _ => exact ha.warnElse he
  | secondRoot _ _ _ _ =>
      have hseveral : Worded p { a with severalRoots := true } := ha.of_eq rfl rfl
      exact hseveral.warn ⟨by simp, by simp⟩ _
  | laterRoot _ _ _ _ => exact ha
  | branch _ _ _ _ => exact (ha.dropText _).addBranch _ _ _
  | orphan _ _ _ => exact (ha.dropText _).warnElse he
  | slot _ _ _ => exact ha.modify fun _ he => he
  | child _ _ _ => exact ha.modify fun _ he => he.withChild (by simp [Node.content?])

theorem openElement_worded {tag : StartTag} {unary : Bool} (ha : a.Worded p) (htag : tag.Worded p)
    (h : a.openElement options tag unary = .ok b) : b.Worded p := by
  rcases openElement_eq_ok h with ⟨e, warnings, linked, hread, hlinks, rfl⟩
  rcases Element.ofStartTag_worded htag hread with ⟨he, hwarnings⟩
  rcases Element.ofStartTag_skeleton hread with ⟨_, _, hskeleton⟩
  have hchildren : e.children = #[] := congrArg Element.Skeleton.children hskeleton
  have hextend : (a.extend e warnings).Worded p := by
    refine ⟨fun id' e' he' => ?_, fun w hw => ?_⟩
    · rw [extend_template, Template.push, Array.getElem?_push] at he'
      split at he'
      · cases he'
        simp [Element.Written, hchildren]
      · exact ha.texts id' e' he'
    · rw [extend, Array.toList_appendList, List.mem_append] at hw
      rcases hw with hw | hw
      · exact ha.warnings w hw
      · exact hwarnings w hw
  have hlinked := hlinks.worded hextend he
  unfold enter
  split
  · exact hlinked
  · exact hlinked.of_eq rfl rfl

theorem keeps_textIn? {content text : String} (hp : Text.Alphabet p)
    (hcontent : ∀ c ∈ content.toList, p c) (h : textIn? options e content = some text) :
    ∀ c ∈ text.toList, p c := by
  unfold textIn? at h
  split at h
  · split at h
    · cases h
      simpa using hp.space
    · cases h
  · split at h
    · cases h
      exact hcontent
    · cases h
      simpa using hp.decodeText _ hcontent

theorem addText_written {text : String} (htext : ∀ c ∈ text.toList, p c) (he : e.Written p)
    (options : Options) (span : Span) : (addText options text span e).Written p := by
  have hpush : ∀ {n : Node}, n.content? = some text → (withChild n e).Written p := by
    intro n hn
    refine he.withChild fun text' htext' => ?_
    rw [hn] at htext'
    cases htext'
    exact htext
  unfold addText
  split
  · split
    · exact he
    · exact hpush rfl
  · split
    · exact hpush rfl
    · exact hpush rfl

theorem readText_worded {content : String} (hp : Text.Alphabet p) (ha : a.Worded p)
    (hcontent : ∀ c ∈ content.toList, p c) (span : Span) :
    (a.readText options size content span).Worded p := by
  unfold readText
  split
  · unfold textOutside
    dsimp only
    split
    · exact ha
    · refine ha.warn ⟨by simp, ?_⟩ _
      simpa using fun c hc => hcontent c (Text.mem_of_mem_trim hc)
  · split
    · exact ha
    · next htext =>
        rcases Option.bind_eq_some_iff.1 htext with ⟨e, _, hin⟩
        exact ha.modify fun _ he => addText_written (keeps_textIn? hp hcontent hin) he _ _

/-- An event is passed on with its words, decoded or cut short. -/
theorem Worded.feed {event : Event} (ha : a.Worded p) (hp : Text.Alphabet p)
    (hevent : event.Worded p) (h : Assembly.feed options size a event = .ok b) : b.Worded p := by
  cases event with
  | opened tag unary =>
      rw [feed_opened] at h
      exact openElement_worded ha hevent h
  | closed name span =>
      rw [feed_closed] at h
      cases h
      cases henclosing : a.enclosing with
      | nil =>
          rw [closeElement_of_nil henclosing]
          exact ha
      | cons id outer =>
          rw [closeElement_of_cons henclosing]
          have houter : Worded p { a with enclosing := outer } := ha.of_eq rfl rfl
          exact houter.modify fun e he n hn => he n ((children_closedAt_sublist span e).subset hn)
  | text content span =>
      rw [feed_text] at h
      cases h
      exact readText_worded hp ha hevent span
  | warned warning =>
      rw [feed_warned] at h
      cases h
      exact ha.warn hevent warning.span

theorem Worded.finish (ha : a.Worded p) (size : Nat) : (a.finish size).Worded p := by
  unfold Assembly.finish
  split
  · exact ha.warn ⟨by simp, by simp⟩ _
  · exact ha

end Assembly

/-- No name in a warning has a line feed, and what warnings quote is written with the characters of
the source, as far as references do not bring in others. -/
theorem parse_worded {p : Char → Prop} {options : Options} {source : String} {parsed : Parsed}
    (hp : Text.Alphabet p) (hsource : ∀ c ∈ source.toList, p c)
    (h : parse options source = .ok parsed) : ∀ w ∈ parsed.warnings, w.kind.Worded p := by
  rcases parse_eq_ok h with ⟨a, hrun, _, hwarnings⟩
  have ha : a.Worded p := foldlM_invariant_of_mem
    (fun hevent hfeed hcurrent => hcurrent.feed hp (worded_scan hp hsource _ hevent) hfeed) hrun
    Assembly.worded_empty
  rw [hwarnings]
  exact (ha.finish _).warnings

end TemplateMarkup
