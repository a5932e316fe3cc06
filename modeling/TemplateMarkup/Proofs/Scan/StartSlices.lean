import TemplateMarkup.Proofs.Scan.Account
import TemplateMarkup.Proofs.Scan.Starts
import TemplateMarkup.Proofs.Tag.Spelled

/-!
# The slices of start events

The span of a start event cuts its tag out of the source, and nothing else:

* `Attribute.Laid source outer attributes` — attributes that stand in `outer` one behind the other,
  each led by its name,
* `StartTag.read?_laid` — the attributes of a start tag stand so between its brackets,
* `scan_start_slice` — reading the slice of a start event gives back the tag of the event.
-/

namespace TemplateMarkup

/-! ## Attributes in their order -/

/-- The attributes stand inside of `outer` one behind the other, each led by its name. -/
structure Attribute.Laid (source : String) (outer : Span) (attributes : List Attribute) :
    Prop where
  inside : ∀ a ∈ attributes, outer.start ≤ a.span.start ∧ a.span.stop < outer.stop
  ordered : attributes.Pairwise fun a b => a.span.stop ≤ b.span.start
  named : ∀ a ∈ attributes, a.name.toList ≠ [] ∧
    ∃ more, Span.Covers source a.span (a.name.toList ++ more)

namespace Attribute.Laid

variable {source : String} {outer : Span} {a : Attribute} {attributes : List Attribute}

theorem nil (source : String) (outer : Span) : Laid source outer [] :=
  ⟨by simp, .nil, by simp⟩

/-- One more attribute in front. -/
theorem cons {start stop : Nat} {more : List Char} (hstart : start ≤ a.span.start)
    (hstop : a.span.stop < stop) (hname : a.name.toList ≠ [])
    (hcovers : Span.Covers source a.span (a.name.toList ++ more))
    (h : Laid source ⟨a.span.stop, stop⟩ attributes) :
    Laid source ⟨start, stop⟩ (a :: attributes) where
  inside := by
    intro b hb
    rcases List.mem_cons.1 hb with rfl | hb
    · exact ⟨hstart, hstop⟩
    · have hle := (h.inside b hb).1
      have hspan := hcovers.start_le
      exact ⟨by simp only at hle ⊢; omega, (h.inside b hb).2⟩
  ordered := List.pairwise_cons.2 ⟨fun b hb => (h.inside b hb).1, h.ordered⟩
  named := by
    intro b hb
    rcases List.mem_cons.1 hb with rfl | hb
    · exact ⟨hname, more, hcovers⟩
    · exact h.named b hb

theorem widen {start : Nat} (h : Laid source outer attributes) (hstart : start ≤ outer.start) :
    Laid source ⟨start, outer.stop⟩ attributes where
  inside := fun a ha => ⟨Nat.le_trans hstart (h.inside a ha).1, (h.inside a ha).2⟩
  ordered := h.ordered
  named := h.named

theorem start_lt (h : Laid source outer attributes) (ha : a ∈ attributes) :
    a.span.start < a.span.stop := by
  rcases h.named a ha with ⟨hname, more, hcovers⟩
  exact hcovers.start_lt (List.append_ne_nil_of_left_ne_nil hname more)

/-- The slice of an attribute starts with its name. -/
theorem slice (h : Laid source outer attributes) (ha : a ∈ attributes) :
    ∃ text, a.span.slice? source = some text ∧ a.name.toList <+: text.toList := by
  rcases h.named a ha with ⟨_, more, hcovers⟩
  exact ⟨_, hcovers.slice?_eq, by simp⟩

end Attribute.Laid

namespace Tag

open Cursor

variable {source : String} {c last : Cursor} {attributes : List Attribute} {selfClosing : Bool}
  {room : Nat}

theorem readAttributes?_lt (h : readAttributes? room c = some (attributes, selfClosing, last)) :
    c.offset < last.offset := by
  rcases readAttributes?_spelled h with ⟨front, _, htakes, _⟩
  rw [htakes.offset_eq]
  exact Nat.lt_add_of_pos_right (Text.byteLength_pos (by simp))

theorem readAttributes?_laid (hc : c.At source)
    (h : readAttributes? room c = some (attributes, selfClosing, last)) :
    Attribute.Laid source ⟨c.offset, last.offset⟩ attributes := by
  -- The first attribute ends where the reading of the others begins.
  induction room generalizing c attributes with
  | zero =>
      rcases readAttributes?_cases h with ⟨_, _, rfl⟩ | ⟨_, _, _, _, _, _, _, hroom, _⟩
      · exact .nil source _
      · cases hroom
  | succ room ih =>
      rcases readAttributes?_cases h with
        ⟨_, _, rfl⟩ |
        ⟨start, text, afterName, value, stop, _, more, hroom, hnext, _, hvalue, hmore, rfl⟩
      · exact .nil source _
      · cases hroom
        rcases Token.next?_takes hnext with ⟨⟨blanks, hblanks⟩, hname⟩
        rcases readValue?_takes hvalue with ⟨taken, htaken⟩
        have hstart := hc.takes hblanks
        have hstop := hstart.takes (hname.trans htaken)
        have hcovers : Span.Covers source ⟨start.offset, stop.offset⟩
            ((String.ofList text).toList ++ taken) := by
          rw [String.toList_ofList]
          exact hstart.covers (hname.trans htaken)
        refine .cons ?_ (readAttributes?_lt hmore) ?_ hcovers (ih hstop hmore)
        · rw [hblanks.offset_eq]
          exact Nat.le_add_right _ _
        · rcases Token.next?_eq_some hnext with ⟨_, _, hread, _⟩
          rcases Token.read?_eq_name hread with ⟨d, ds, rfl, _⟩
          simp

end Tag

namespace StartTag

open Cursor

variable {source : String} {c last : Cursor} {tag : StartTag}

/-- The attributes of a start tag stand behind its name and in front of its closing bracket. -/
theorem read?_laid (hc : c.At source) (h : read? c = some (tag, last)) :
    Attribute.Laid source ⟨tag.span.start + 1, tag.span.stop⟩ tag.attributes := by
  rcases read?_eq_some h with ⟨cs, name, rest, hcs, hname, _, hspan, hattributes⟩
  have hadvance : c.Takes ('<' :: name) (c.advance ('<' :: name) rest) :=
    takes_advance (by rw [hcs, (Tag.readName?_eq_some hname).1, List.cons_append])
  have hlaid := Tag.readAttributes?_laid (hc.takes hadvance) hattributes
  have hbehind : c.offset + 1 ≤ (c.advance ('<' :: name) rest).offset := by
    have hbracket : '<'.utf8Size = 1 := by decide
    rw [hadvance.offset_eq, Text.byteLength_cons]
    omega
  rw [hspan]
  exact hlaid.widen hbehind

theorem shift_zero (tag : StartTag) : tag.shift 0 = tag := by
  have hattributes : tag.attributes.map (Attribute.shift 0) = tag.attributes :=
    List.map_id _
  rw [shift, hattributes]
  rfl

/-- What a start tag is read from is read as the same tag at the start of a source. -/
theorem read?_slice (hc : c.At source) (h : read? c = some (tag, last)) :
    ∃ slice written, tag.span.slice? source = some slice ∧
      read? (.ofText slice) = some (written, ⟨Text.byteLength slice.toList, []⟩) ∧
      written.span = ⟨0, Text.byteLength slice.toList⟩ ∧
      tag = written.shift tag.span.start := by
  rcases read?_takes h with ⟨_, _, _, hspan⟩
  rcases read?_spelled h with ⟨taken, written, htakes, hwritten, hspelled⟩
  -- The tag does not depend on its place and on what follows: take the start and nothing.
  have hread : read? (.ofText (String.ofList taken)) =
      some (written, ⟨Text.byteLength taken, []⟩) := by
    have hzero := hspelled 0 []
    rw [shift_zero, List.append_nil, Nat.zero_add] at hzero
    rw [Cursor.ofText, String.toList_ofList]
    exact hzero
  rcases read?_takes hread with ⟨_, _, _, hwhole⟩
  refine ⟨String.ofList taken, written, ?_, ?_, ?_, ?_⟩
  · rw [hspan]
    exact (hc.covers htakes).slice?_eq
  · rw [hread, String.toList_ofList]
  · rw [hwhole, String.toList_ofList]
    rfl
  · rw [hspan]
    exact hwritten

end StartTag

/-! ## Start events -/

/-- The tag of a start event is read at some place of the source. -/
theorem exists_read?_of_scan {source : String} {tag : StartTag} {unary : Bool}
    (h : .opened tag unary ∈ scan source) :
    ∃ c last : Cursor, c.At source ∧ StartTag.read? c = some (tag, last) := by
  rcases List.append_of_mem h with ⟨before, after, hsplit⟩
  rcases (reads_scan source).at_start (P := fun s => s.cursor.At source)
    (fun hs hstep => hstep.place hs) (Cursor.at_ofText source) hsplit with
    ⟨s, stop, hplace, hread, _, _, _⟩
  exact ⟨s.cursor, stop, hplace, hread⟩

/-- The span of a start event cuts a start tag out of the source: its slice, read on its own, is
all one start tag, with the same name, bracket and attributes as that of the event, all spans
counted from the start of the slice. The attributes stand inside of the tag one behind the other,
and the slice of each starts with its name. -/
theorem scan_start_slice (source : String) (tag : StartTag) (unary : Bool)
    (h : .opened tag unary ∈ scan source) :
    (∃ slice written, tag.span.slice? source = some slice ∧
      StartTag.read? (.ofText slice) = some (written, ⟨Text.byteLength slice.toList, []⟩) ∧
      written.span = ⟨0, Text.byteLength slice.toList⟩ ∧
      tag = written.shift tag.span.start) ∧
    (∀ a ∈ tag.attributes, tag.span.start < a.span.start ∧ a.span.start < a.span.stop ∧
      a.span.stop < tag.span.stop) ∧
    (tag.attributes.Pairwise fun a b => a.span.stop ≤ b.span.start) ∧
    ∀ a ∈ tag.attributes, ∃ text, a.span.slice? source = some text ∧
      a.name.toList <+: text.toList := by
  rcases exists_read?_of_scan h with ⟨c, last, hplace, hread⟩
  have hlaid := StartTag.read?_laid hplace hread
  refine ⟨StartTag.read?_slice hplace hread, fun a ha => ?_, hlaid.ordered, fun a ha => ?_⟩
  · exact ⟨(hlaid.inside a ha).1, hlaid.start_lt ha, (hlaid.inside a ha).2⟩
  · exact hlaid.slice ha

/-- Offsets count bytes: `é` and `ü` have two. -/
theorem scan_start_slice_accents :
    ∃ tag : StartTag, .opened tag false ∈ scan "a<p é=\"ü\" b>" ∧
      (∃ slice written, tag.span.slice? "a<p é=\"ü\" b>" = some slice ∧
        StartTag.read? (.ofText slice) = some (written, ⟨Text.byteLength slice.toList, []⟩) ∧
        written.span = ⟨0, Text.byteLength slice.toList⟩ ∧
        tag = written.shift tag.span.start) ∧
      (∀ a ∈ tag.attributes, tag.span.start < a.span.start ∧ a.span.start < a.span.stop ∧
        a.span.stop < tag.span.stop) ∧
      (tag.attributes.Pairwise fun a b => a.span.stop ≤ b.span.start) ∧
      ∀ a ∈ tag.attributes, ∃ text, a.span.slice? "a<p é=\"ü\" b>" = some text ∧
        a.name.toList <+: text.toList := by
  have hscan : .opened ⟨"p", [⟨"é", "ü", ⟨4, 11⟩⟩, ⟨"b", "", ⟨12, 13⟩⟩], false, ⟨1, 14⟩⟩ false ∈
      scan "a<p é=\"ü\" b>" := by
    decide +kernel
  exact ⟨_, hscan, scan_start_slice _ _ _ hscan⟩

end TemplateMarkup
