import TemplateMarkup.Proofs.Tag.Written
import TemplateMarkup.Tag.Start

/-!
# Where tags stand in a source

A reader only moves its cursor forward over what it reads. This file shows it of start tags, and
with it that the spans of a start tag and of its attributes are places in the source:

* `Cursor.At source c` — a cursor that stands in `source`,
* `StartTag.read?_takes` — a start tag is read from its opening to its closing bracket,
* `StartTag.read?_covers` — the attributes of a start tag have places in the source.
-/

namespace TemplateMarkup

/-! ## Places -/

namespace Cursor

variable {source : String} {c d : Cursor} {taken : List Char}

/-- A place in `source`: what comes before it has as many bytes as the offset says. -/
def At (source : String) (c : Cursor) : Prop :=
  ∃ front, source.toList = front ++ c.rest ∧ c.offset = Text.byteLength front

theorem at_ofText (source : String) : (ofText source).At source :=
  ⟨[], rfl, rfl⟩

theorem At.takes (h : c.At source) (htakes : c.Takes taken d) : d.At source := by
  rcases h with ⟨front, hsource, hoffset⟩
  refine ⟨front ++ taken, ?_, ?_⟩
  · rw [hsource, htakes.rest_eq, List.append_assoc]
  · rw [htakes.offset_eq, hoffset, Text.byteLength_append]

/-- What is read between two cursors stands between their offsets. -/
theorem At.covers (h : c.At source) (htakes : c.Takes taken d) :
    Span.Covers source ⟨c.offset, d.offset⟩ taken := by
  rcases h with ⟨front, hsource, hoffset⟩
  refine ⟨front, d.rest, ?_, ?_⟩
  · rw [hsource, htakes.rest_eq, List.append_assoc]
  · rw [htakes.offset_eq, hoffset]

end Cursor

/-! ## Tokens -/

namespace Tag

open Cursor

variable {c start stop last : Cursor} {token : Token} {value : List Char}
  {attributes : List Attribute} {selfClosing : Bool} {room : Nat}

theorem Token.next?_takes (h : Token.next? c = some (start, token, stop)) :
    (∃ blanks, c.Takes blanks start) ∧ start.Takes token.lexeme stop := by
  simp only [Token.next?] at h
  split at h
  · next token' rest hread =>
      simp only [Option.some.injEq, Prod.mk.injEq] at h
      obtain ⟨rfl, rfl, rfl⟩ := h
      refine ⟨⟨_, takes_advance ?_⟩, takes_advance (Token.read?_eq_some hread)⟩
      exact List.takeWhile_append_dropWhile.symm
  · cases h

theorem readAssigned?_takes (hstart : start.Takes token.lexeme stop)
    (h : readAssigned? start token stop = some (value, last)) :
    ∃ taken, start.Takes taken last := by
  unfold readAssigned? at h
  split at h
  · cases h
    exact ⟨_, hstart⟩
  · split at h
    · cases h
    · cases h
      exact ⟨_, takes_advance List.takeWhile_append_dropWhile.symm⟩

theorem readValue?_takes (h : readValue? c = some (value, stop)) :
    ∃ taken, c.Takes taken stop := by
  unfold readValue? at h
  split at h
  · next hequals =>
      rcases Token.next?_takes hequals with ⟨⟨blanks, hblanks⟩, hsign⟩
      split at h
      · next hnext =>
          rcases Token.next?_takes hnext with ⟨⟨blanks', hblanks'⟩, htoken⟩
          rcases readAssigned?_takes htoken h with ⟨taken, htaken⟩
          exact ⟨_, ((hblanks.trans hsign).trans hblanks').trans htaken⟩
      · cases h
  · cases h
    exact ⟨[], Takes.refl c⟩

/-- What `readAttributes?` does with its next token. -/
theorem readAttributes?_cases
    (h : readAttributes? room c = some (attributes, selfClosing, last)) :
    (∃ start, Token.next? c = some (start, .close selfClosing, last) ∧ attributes = []) ∨
    ∃ start text afterName value stop room' more,
      room = room' + 1 ∧
      Token.next? c = some (start, .name text, afterName) ∧
      Text.byteLength text ≤ maxNameBytes ∧
      readValue? afterName = some (value, stop) ∧
      readAttributes? room' stop = some (more, selfClosing, last) ∧
      attributes =
        ⟨String.ofList text, String.ofList value, ⟨start.offset, stop.offset⟩⟩ :: more := by
  unfold readAttributes? at h
  split at h
  · next hnext =>
      cases h
      exact .inl ⟨_, hnext, rfl⟩
  · next start text afterName hnext =>
      split at h
      · cases h
      · next room' =>
          split at h
          · cases h
          · next hbytes =>
              split at h
              · cases h
              · next value stop hvalue =>
                  split at h
                  · cases h
                  · next more selfClosing' last' hmore =>
                      cases h
                      exact .inr ⟨start, text, afterName, value, stop, room', more, rfl, hnext,
                        Nat.le_of_not_lt hbytes, hvalue, hmore, rfl⟩
  · cases h

theorem readAttributes?_takes
    (h : readAttributes? room c = some (attributes, selfClosing, last)) :
    ∃ taken, c.Takes taken last := by
  induction room generalizing c attributes with
  | zero =>
      rcases readAttributes?_cases h with ⟨start, hnext, _⟩ | ⟨_, _, _, _, _, room', _, hroom, _⟩
      · rcases Token.next?_takes hnext with ⟨⟨blanks, hblanks⟩, hclose⟩
        exact ⟨_, hblanks.trans hclose⟩
      · cases hroom
  | succ room ih =>
      rcases readAttributes?_cases h with
        ⟨start, hnext, _⟩ |
        ⟨start, text, afterName, value, stop, _, more, hroom, hnext, _, hvalue, hmore, _⟩
      · rcases Token.next?_takes hnext with ⟨⟨blanks, hblanks⟩, hclose⟩
        exact ⟨_, hblanks.trans hclose⟩
      · cases hroom
        rcases Token.next?_takes hnext with ⟨⟨blanks, hblanks⟩, hname⟩
        rcases readValue?_takes hvalue with ⟨taken, htaken⟩
        rcases ih hmore with ⟨behind, hbehind⟩
        exact ⟨_, ((hblanks.trans hname).trans htaken).trans hbehind⟩

/-- Every attribute stands somewhere in the source. -/
theorem readAttributes?_covers {source : String} (hc : c.At source)
    (h : readAttributes? room c = some (attributes, selfClosing, last)) :
    ∀ a ∈ attributes, ∃ inside, Span.Covers source a.span inside := by
  induction room generalizing c attributes with
  | zero =>
      rcases readAttributes?_cases h with ⟨_, _, rfl⟩ | ⟨_, _, _, _, _, room', _, hroom, _⟩
      · simp
      · cases hroom
  | succ room ih =>
      rcases readAttributes?_cases h with
        ⟨_, _, rfl⟩ |
        ⟨start, text, afterName, value, stop, _, more, hroom, hnext, _, hvalue, hmore, rfl⟩
      · simp
      · cases hroom
        rcases Token.next?_takes hnext with ⟨⟨blanks, hblanks⟩, hname⟩
        rcases readValue?_takes hvalue with ⟨taken, htaken⟩
        have hstart := hc.takes hblanks
        have hstop := hstart.takes (hname.trans htaken)
        intro a ha
        rcases List.mem_cons.1 ha with rfl | ha
        · exact ⟨_, hstart.covers (hname.trans htaken)⟩
        · exact ih hstop hmore a ha

end Tag

/-! ## Start tags -/

namespace StartTag

open Cursor

variable {c last : Cursor} {tag : StartTag}

theorem read?_eq_some (h : read? c = some (tag, last)) :
    ∃ cs name rest, c.rest = '<' :: cs ∧ Tag.readName? cs = some (name, rest) ∧
      tag.name = String.ofList name ∧ tag.span = ⟨c.offset, last.offset⟩ ∧
      Tag.readAttributes? Tag.maxAttributes (c.advance ('<' :: name) rest) =
        some (tag.attributes, tag.selfClosing, last) := by
  unfold read? at h
  split at h
  · next cs hcs =>
      split at h
      · cases h
      · next name rest hname =>
          split at h
          · cases h
          · next hattributes =>
              cases h
              exact ⟨cs, name, rest, hcs, hname, rfl, rfl, hattributes⟩
  · cases h

/-- A start tag is read from its opening bracket on. -/
theorem read?_takes (h : read? c = some (tag, last)) :
    ∃ taken, taken ≠ [] ∧ c.Takes taken last ∧ tag.span = ⟨c.offset, last.offset⟩ := by
  rcases read?_eq_some h with ⟨cs, name, rest, hcs, hname, _, hspan, hattributes⟩
  have hadvance : c.Takes ('<' :: name) (c.advance ('<' :: name) rest) :=
    takes_advance (by rw [hcs, (Tag.readName?_eq_some hname).1, List.cons_append])
  rcases Tag.readAttributes?_takes hattributes with ⟨taken, htaken⟩
  exact ⟨_, by simp, hadvance.trans htaken, hspan⟩

theorem read?_covers {source : String} (hc : c.At source) (h : read? c = some (tag, last)) :
    ∀ a ∈ tag.attributes, ∃ inside, Span.Covers source a.span inside := by
  rcases read?_eq_some h with ⟨cs, name, rest, hcs, hname, _, _, hattributes⟩
  have hadvance : c.Takes ('<' :: name) (c.advance ('<' :: name) rest) :=
    takes_advance (by rw [hcs, (Tag.readName?_eq_some hname).1, List.cons_append])
  exact Tag.readAttributes?_covers (hc.takes hadvance) hattributes

end StartTag
end TemplateMarkup
