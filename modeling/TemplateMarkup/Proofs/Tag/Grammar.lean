import Mathlib.Data.List.Forall2
import TemplateMarkup.Proofs.Reference.Decode
import TemplateMarkup.Proofs.Tag.Spelled

/-!
# The grammar of start tags

A start tag is a name, attributes with blanks in front of each, more blanks and a closing bracket.
A text of the grammar carries the proofs that its parts may stand where they stand:

* `Tag.Assignment` — no value, one between quotes, or one without,
* `Tag.AttributeText`, `Tag.StartTagText` — attributes and start tags as they are written, with
  `chars` for their characters,
* `Tag.StartTagText.tagAt` — the start tag that such a text is written for,
* `Tag.StartTagText.Fits` — the bounds on attributes,
* `Tag.StartTagText.read?_eq` — what is read at a text of the grammar: its tag within the bounds,
  and nothing beyond them.
-/

namespace TemplateMarkup
namespace Tag

/-! ## Texts of the grammar -/

/-- Blanks between the parts of a tag, perhaps none. -/
structure Blanks where
  chars : List Char
  blank : ∀ c ∈ chars, Text.isTagBlank c

namespace Blanks

def none : Blanks := ⟨[], nofun⟩

def space : Blanks := ⟨[' '], List.all_eq_true.1 (by decide)⟩

theorem space_ne_nil : space.chars ≠ [] :=
  List.cons_ne_nil _ _

/-- What follows blanks comes first only if there are none. -/
theorem head_append (blanks : Blanks) (d : Char) (more : List Char) :
    ∃ e tail, blanks.chars ++ d :: more = e :: tail ∧
      (Text.isTagBlank e ∨ blanks.chars = [] ∧ e = d) := by
  cases hchars : blanks.chars with
  | nil => exact ⟨d, more, rfl, .inr ⟨rfl, rfl⟩⟩
  | cons b tail => exact ⟨b, _, rfl, .inl (blanks.blank b (by simp [hchars]))⟩

end Blanks

/-- What stands behind an attribute name. -/
inductive Assignment where
  | absent
  | quoted (before after : Blanks) (mark : Char) (raw : List Char)
      (isMark : mark = '"' ∨ mark = '\'') (notMem : mark ∉ raw)
  | bare (before after : Blanks) (raw : List Char) (nonempty : raw ≠ [])
      (unquoted : ∀ c ∈ raw, isUnquotedChar c)

namespace Assignment

def chars : Assignment → List Char
  | absent => []
  | quoted before after mark raw _ _ =>
      before.chars ++ '=' :: (after.chars ++ (Token.quoted mark raw).lexeme)
  | bare before after raw _ _ => before.chars ++ '=' :: (after.chars ++ raw)

/-- The value as it is written. -/
def raw? : Assignment → Option (List Char)
  | absent => none
  | quoted _ _ _ raw _ _ => some raw
  | bare _ _ raw _ _ => some raw

/-- The value that is meant. -/
def value (a : Assignment) : List Char :=
  match a.raw? with
  | some raw => Reference.decodeAttribute raw
  | none => []

/-- A value that only ends where a character stands that it cannot hold. -/
def IsBare : Assignment → Prop
  | bare .. => True
  | _ => False

/-- Any text at all, escaped and between double quotes. -/
def escaped (before after : Blanks) (value : String) : Assignment :=
  quoted before after '"' (Reference.escape value.toList) (.inl rfl)
    (Reference.quote_not_mem_escape value.toList)

theorem value_escaped (before after : Blanks) (value : String) :
    (escaped before after value).value = value.toList :=
  Reference.decodeAttribute_escape value.toList

end Assignment

/-- An attribute behind the blanks that set it apart. -/
structure AttributeText where
  lead : Blanks
  name : List Char
  assignment : Assignment
  lead_nonempty : lead.chars ≠ []
  name_nonempty : name ≠ []
  name_chars : ∀ c ∈ name, Token.isNameChar c

namespace AttributeText

def chars (a : AttributeText) : List Char :=
  a.lead.chars ++ (a.name ++ a.assignment.chars)

/-- The attribute, where `offset` is the place of its first blank. -/
def attributeAt (offset : Nat) (a : AttributeText) : Attribute :=
  { name := String.ofList a.name
    value := String.ofList a.assignment.value
    span := ⟨offset + Text.byteLength a.lead.chars, offset + Text.byteLength a.chars⟩ }

/-- The attributes of a tag, one behind the other. -/
def attributesAt (offset : Nat) : List AttributeText → List Attribute
  | [] => []
  | a :: more => a.attributeAt offset :: attributesAt (offset + Text.byteLength a.chars) more

theorem map_attributesAt {α : Type} (f : Attribute → α) (g : AttributeText → α)
    (h : ∀ offset a, f (attributeAt offset a) = g a) (offset : Nat)
    (attributes : List AttributeText) :
    (attributesAt offset attributes).map f = attributes.map g := by
  induction attributes generalizing offset with
  | nil => rfl
  | cons a more ih => rw [attributesAt, List.map_cons, List.map_cons, h, ih]

/-- Values that are written escaped are meant as they were. -/
theorem map_escaped {attributes : List AttributeText} {values : List String}
    (h : List.Forall₂ (fun a value => ∃ before after, a.assignment = .escaped before after value)
      attributes values) :
    attributes.map (fun a => String.ofList a.assignment.value) = values := by
  induction h with
  | nil => rfl
  | cons hvalue _ ih =>
      rcases hvalue with ⟨before, after, hassignment⟩
      rw [List.map_cons, hassignment, Assignment.value_escaped, String.ofList_toList, ih]

/-- At most `room` attributes, and no name that is too long. -/
def Fit (room : Nat) (attributes : List AttributeText) : Prop :=
  attributes.length ≤ room ∧ ∀ a ∈ attributes, Text.byteLength a.name ≤ maxNameBytes

instance (room : Nat) (attributes : List AttributeText) : Decidable (Fit room attributes) :=
  inferInstanceAs (Decidable (_ ∧ _))

theorem fit_nil (room : Nat) : Fit room [] :=
  ⟨Nat.zero_le room, by simp⟩

theorem not_fit_zero (a : AttributeText) (more : List AttributeText) : ¬Fit 0 (a :: more) :=
  fun h => absurd h.1 (by simp)

theorem fit_cons {room : Nat} {a : AttributeText} {more : List AttributeText} :
    Fit (room + 1) (a :: more) ↔ Text.byteLength a.name ≤ maxNameBytes ∧ Fit room more := by
  simp only [Fit, List.length_cons, Nat.add_le_add_iff_right, List.forall_mem_cons]
  exact and_left_comm

end AttributeText

/-- Blanks and the closing bracket. -/
def endingChars (trail : Blanks) (selfClosing : Bool) : List Char :=
  trail.chars ++ (Token.close selfClosing).lexeme

/-- A slash that closes a tag does not stand right behind a value without quotes, which it would
be part of. -/
def Apart (attributes : List AttributeText) (trail : Blanks) (selfClosing : Bool) : Prop :=
  selfClosing = true → trail.chars = [] → ∀ a ∈ attributes.getLast?, ¬a.assignment.IsBare

/-- A start tag as it is written. -/
structure StartTagText where
  name : List Char
  attributes : List AttributeText
  trail : Blanks
  selfClosing : Bool
  name_read : readName? name = some (name, [])
  apart : Apart attributes trail selfClosing

namespace StartTagText

def chars (t : StartTagText) : List Char :=
  '<' :: (t.name ++
    (t.attributes.flatMap AttributeText.chars ++ endingChars t.trail t.selfClosing))

/-- The start tag, where `offset` is the place of its opening bracket. -/
def tagAt (offset : Nat) (t : StartTagText) : StartTag :=
  { name := String.ofList t.name
    attributes := AttributeText.attributesAt (offset + Text.byteLength ('<' :: t.name)) t.attributes
    selfClosing := t.selfClosing
    span := ⟨offset, offset + Text.byteLength t.chars⟩ }

/-- The bounds on the attributes of a tag. -/
def Fits (t : StartTagText) : Prop :=
  AttributeText.Fit maxAttributes t.attributes

instance (t : StartTagText) : Decidable t.Fits :=
  inferInstanceAs (Decidable (AttributeText.Fit _ _))

end StartTagText

/-! ## Reading the parts -/

variable {offset room : Nat} {rest more behind : List Char} {d : Char} {token : Token}

/-- Names are set apart by blanks, so there is none in them. -/
theorem Token.isTagBlank_of_isNameChar (h : isNameChar d) : Text.isTagBlank d = false := by
  simp only [isNameChar, Bool.not_eq_true', Bool.or_eq_false_iff] at h
  simp [h]

/-- A token behind blanks. -/
theorem Token.next?_append (blanks : Blanks) (hd : Text.isTagBlank d = false)
    (hread : read? (d :: more) = some (token, behind)) (offset : Nat) :
    next? ⟨offset, blanks.chars ++ d :: more⟩ =
      some (⟨offset + Text.byteLength blanks.chars, d :: more⟩, token,
        ⟨offset + Text.byteLength blanks.chars + Text.byteLength token.lexeme, behind⟩) := by
  have htake : (blanks.chars ++ d :: more).takeWhile Text.isTagBlank = blanks.chars := by
    rw [List.takeWhile_append_of_pos blanks.blank]
    simp [hd]
  have hdrop : (blanks.chars ++ d :: more).dropWhile Text.isTagBlank = d :: more := by
    rw [List.dropWhile_append_of_pos blanks.blank]
    simp [hd]
  have hread' : read? ((blanks.chars ++ d :: more).dropWhile Text.isTagBlank) =
      some (token, behind) := by
    rw [hdrop]
    exact hread
  rw [next?_of_read? (c := ⟨offset, blanks.chars ++ d :: more⟩) hread']
  simp only [Cursor.advance, htake, hdrop]

theorem Token.next?_equals (before : Blanks) (offset : Nat) (more : List Char) :
    next? ⟨offset, before.chars ++ '=' :: more⟩ =
      some (⟨offset + Text.byteLength before.chars, '=' :: more⟩, .equals,
        ⟨offset + Text.byteLength before.chars + '='.utf8Size, more⟩) :=
  next?_append before (by decide) rfl offset

/-- What may follow an attribute: it neither goes on with the name or the value, nor gives the
attribute a value it does not have. -/
structure Assignment.Stops (a : Assignment) (rest : List Char) : Prop where
  name_ends : ∃ d more, rest = d :: more ∧ Token.isNameChar d = false
  no_equals : (rest.dropWhile Text.isTagBlank).head? ≠ some '='
  bare_ends : a.IsBare → ∃ d more, rest = d :: more ∧ isUnquotedChar d = false

/-- A value is read with the blanks around its equals sign. -/
theorem readValue?_chars {a : Assignment} (h : a.Stops rest) (offset : Nat) :
    readValue? ⟨offset, a.chars ++ rest⟩ =
      some (a.value, ⟨offset + Text.byteLength a.chars, rest⟩) := by
  cases a with
  | absent => exact readValue?_of_not_equals h.no_equals
  | quoted before after mark raw isMark notMem =>
      have hmark : Text.isTagBlank mark = false := by
        rcases isMark with rfl | rfl <;> decide
      have hread : Token.read? (mark :: (raw ++ mark :: rest)) = some (.quoted mark raw, rest) := by
        simpa [Token.lexeme] using Token.read?_quoted isMark notMem rest
      have hnext := Token.next?_append after hmark hread
        (offset + Text.byteLength before.chars + '='.utf8Size)
      simp only [Assignment.chars, Token.lexeme, List.append_assoc, List.cons_append,
        List.nil_append, readValue?, Token.next?_equals, hnext, readAssigned?]
      simp [Assignment.value, Assignment.raw?]
      omega
  | bare before after raw nonempty unquoted =>
      rcases List.exists_cons_of_ne_nil nonempty with ⟨d, raw, rfl⟩
      rcases h.bare_ends trivial with ⟨e, more, rfl, he⟩
      have hd : isUnquotedChar d = true := unquoted d List.mem_cons_self
      have hblank : Text.isTagBlank d = false := by
        simp only [isUnquotedChar, Bool.not_eq_true', Bool.or_eq_false_iff] at hd
        simp [hd]
      have hquotes : d ≠ '"' ∧ d ≠ '\'' := by
        constructor <;> (rintro rfl; exact absurd hd (by decide))
      -- Whatever token starts here, it is no quoted value, and the characters are read instead.
      rcases Token.read?_not_quoted hquotes (raw ++ e :: more) with
        ⟨token, behind, hread, htoken⟩
      have hnext := Token.next?_append after hblank hread
        (offset + Text.byteLength before.chars + '='.utf8Size)
      have htake : (d :: (raw ++ e :: more)).takeWhile isUnquotedChar = d :: raw := by
        rw [← List.cons_append, List.takeWhile_append_of_pos unquoted]
        simp [he]
      have hdrop : (d :: (raw ++ e :: more)).dropWhile isUnquotedChar = e :: more := by
        rw [← List.cons_append, List.dropWhile_append_of_pos unquoted]
        simp [he]
      simp only [Assignment.chars, List.append_assoc, List.cons_append, readValue?,
        Token.next?_equals, hnext]
      rw [readAssigned?_of_not_quoted htoken htake, hdrop]
      simp [Assignment.value, Assignment.raw?, Cursor.advance]
      omega

/-- A name stops at a blank or at the equals sign, or else at what follows the attribute. -/
theorem Assignment.Stops.name_ends_append {a : Assignment} (h : a.Stops rest) :
    ∃ d more, a.chars ++ rest = d :: more ∧ Token.isNameChar d = false := by
  have hequals (before : Blanks) (more : List Char) :
      ∃ d tail, before.chars ++ '=' :: more = d :: tail ∧ Token.isNameChar d = false := by
    rcases before.head_append '=' more with ⟨d, tail, heq, hblank | ⟨_, rfl⟩⟩
    · exact ⟨d, tail, heq, by simp [Token.isNameChar, hblank]⟩
    · exact ⟨_, tail, heq, by decide⟩
  cases a with
  | absent => exact h.name_ends
  | quoted before after mark raw isMark notMem => simpa [chars] using hequals before _
  | bare before after raw nonempty unquoted => simpa [chars] using hequals before _

/-- An attribute name is read up to what stops it. -/
theorem next?_attributeName (a : AttributeText) (h : a.assignment.Stops rest) (offset : Nat) :
    Token.next? ⟨offset, a.chars ++ rest⟩ =
      some (⟨offset + Text.byteLength a.lead.chars, a.name ++ (a.assignment.chars ++ rest)⟩,
        .name a.name,
        ⟨offset + Text.byteLength a.lead.chars + Text.byteLength a.name,
          a.assignment.chars ++ rest⟩) := by
  rcases List.exists_cons_of_ne_nil a.name_nonempty with ⟨c, name, hname⟩
  have hchars := a.name_chars
  rw [hname] at hchars
  have hc : Token.isNameChar c = true := hchars c List.mem_cons_self
  rcases h.name_ends_append with ⟨d, more, hrest, hd⟩
  have hread : Token.read? (c :: (name ++ d :: more)) = some (.name (c :: name), d :: more) := by
    have htail : ∀ e ∈ name, Token.isNameChar e = true := fun e he =>
      hchars e (List.mem_cons_of_mem c he)
    rw [Token.read?_of_isNameChar hc, List.takeWhile_append_of_pos htail,
      List.dropWhile_append_of_pos htail]
    simp [hd]
  have hnext := Token.next?_append a.lead (Token.isTagBlank_of_isNameChar hc) hread offset
  simpa [AttributeText.chars, hrest, hname, Token.lexeme] using hnext

/-! ## What follows an attribute -/

variable {attributes : List AttributeText} {a : AttributeText} {trail : Blanks}
  {selfClosing : Bool}

theorem Apart.tail (h : Apart (a :: attributes) trail selfClosing) :
    Apart attributes trail selfClosing := by
  cases attributes with
  | nil => exact fun _ _ _ hmem => nomatch hmem
  | cons b attributes =>
      intro hclosing htrail
      have hlast := h hclosing htrail
      rwa [List.getLast?_cons_cons] at hlast

/-- Blanks stop everything, and without them the first character has to. -/
theorem Assignment.stops_append {a : Assignment} {blanks : Blanks}
    (hd : Text.isTagBlank d = false) (hequals : d ≠ '=')
    (hstop : blanks.chars = [] →
      Token.isNameChar d = false ∧ (a.IsBare → isUnquotedChar d = false)) (more : List Char) :
    a.Stops (blanks.chars ++ d :: more) := by
  have hdrop : (blanks.chars ++ d :: more).dropWhile Text.isTagBlank = d :: more := by
    rw [List.dropWhile_append_of_pos blanks.blank]
    simp [hd]
  have hnone : ((blanks.chars ++ d :: more).dropWhile Text.isTagBlank).head? ≠ some '=' := by
    rw [hdrop, List.head?_cons]
    exact fun heq => hequals (Option.some.inj heq)
  rcases blanks.head_append d more with ⟨e, tail, heq, he⟩
  have hends : Token.isNameChar e = false ∧ (a.IsBare → isUnquotedChar e = false) := by
    rcases he with hblank | ⟨hnil, rfl⟩
    · simp [Token.isNameChar, isUnquotedChar, hblank]
    · exact hstop hnil
  exact ⟨⟨e, tail, heq, hends.1⟩, hnone, fun hbare => ⟨e, tail, heq, hends.2 hbare⟩⟩

/-- An attribute of a tag is stopped by the next one or by the ending of the tag. -/
theorem Apart.stops (h : Apart (a :: attributes) trail selfClosing) (rest : List Char) :
    a.assignment.Stops (attributes.flatMap AttributeText.chars ++
      (endingChars trail selfClosing ++ rest)) := by
  cases attributes with
  | nil =>
      cases selfClosing with
      | false =>
          have hstop : trail.chars = [] → Token.isNameChar '>' = false ∧
              (a.assignment.IsBare → isUnquotedChar '>' = false) :=
            fun _ => ⟨by decide, fun _ => by decide⟩
          simpa [endingChars, Token.lexeme] using
            Assignment.stops_append (by decide) (by decide) hstop rest
      | true =>
          have hstop : trail.chars = [] → Token.isNameChar '/' = false ∧
              (a.assignment.IsBare → isUnquotedChar '/' = false) := fun htrail =>
            ⟨by decide, fun hbare => absurd hbare (h rfl htrail a rfl)⟩
          simpa [endingChars, Token.lexeme] using
            Assignment.stops_append (by decide) (by decide) hstop ('>' :: rest)
  | cons b attributes =>
      rcases List.exists_cons_of_ne_nil b.name_nonempty with ⟨c, name, hname⟩
      have hc : Token.isNameChar c = true := b.name_chars c (by simp [hname])
      have hblank := Token.isTagBlank_of_isNameChar hc
      have hequals : c ≠ '=' := by
        rintro rfl
        exact absurd hc (by decide)
      have hstop : b.lead.chars = [] → Token.isNameChar c = false ∧
          (a.assignment.IsBare → isUnquotedChar c = false) :=
        fun hlead => absurd hlead b.lead_nonempty
      simpa [AttributeText.chars, hname] using Assignment.stops_append hblank hequals hstop
        (name ++ (b.assignment.chars ++ (attributes.flatMap AttributeText.chars ++
          (endingChars trail selfClosing ++ rest))))

/-! ## Reading the whole tag -/

theorem next?_ending (trail : Blanks) (selfClosing : Bool) (offset : Nat) (rest : List Char) :
    Token.next? ⟨offset, endingChars trail selfClosing ++ rest⟩ =
      some (⟨offset + Text.byteLength trail.chars, (Token.close selfClosing).lexeme ++ rest⟩,
        .close selfClosing,
        ⟨offset + Text.byteLength (endingChars trail selfClosing), rest⟩) := by
  have hbytes : offset + Text.byteLength (endingChars trail selfClosing) =
      offset + Text.byteLength trail.chars +
        Text.byteLength (Token.close selfClosing).lexeme := by
    rw [endingChars, Text.byteLength_append, Nat.add_assoc]
  rw [hbytes, endingChars, List.append_assoc]
  cases selfClosing with
  | false => exact Token.next?_append (d := '>') trail (by decide) rfl offset
  | true => exact Token.next?_append (d := '/') trail (by decide) rfl offset

/-- Attributes are read if they fit; the first one that does not ends the reading. -/
theorem readAttributes?_chars (h : Apart attributes trail selfClosing) (room offset : Nat)
    (rest : List Char) :
    readAttributes? room ⟨offset, attributes.flatMap AttributeText.chars ++
        (endingChars trail selfClosing ++ rest)⟩ =
      if AttributeText.Fit room attributes then
        some (AttributeText.attributesAt offset attributes, selfClosing,
          ⟨offset + Text.byteLength (attributes.flatMap AttributeText.chars ++
            endingChars trail selfClosing), rest⟩)
      else none := by
  induction attributes generalizing room offset with
  | nil =>
      unfold readAttributes?
      simp [next?_ending, AttributeText.attributesAt, AttributeText.fit_nil]
  | cons a attributes ih =>
      have hstops := h.stops rest
      have hname := next?_attributeName a hstops offset
      have hvalue := readValue?_chars hstops
        (offset + Text.byteLength a.lead.chars + Text.byteLength a.name)
      unfold readAttributes?
      rw [List.flatMap_cons, List.append_assoc, hname]
      cases room with
      | zero =>
          -- This is one attribute more than there may be.
          simp [AttributeText.not_fit_zero]
      | succ room =>
          by_cases hlong : maxNameBytes < Text.byteLength a.name
          · simp [hlong, AttributeText.fit_cons, Nat.not_le_of_lt hlong]
          · -- The value ends where the next attribute starts, so the rest is read from there.
            have hoffset : offset + Text.byteLength a.lead.chars + Text.byteLength a.name +
                Text.byteLength a.assignment.chars = offset + Text.byteLength a.chars := by
              simp only [AttributeText.chars, Text.byteLength_append]
              omega
            have hmore := ih h.tail room (offset + Text.byteLength a.chars)
            simp only [hlong, if_false, hvalue, hoffset, hmore, AttributeText.fit_cons]
            by_cases hfit : AttributeText.Fit room attributes
            · simp [hfit, Nat.not_lt.1 hlong, AttributeText.attributesAt,
                AttributeText.attributeAt, Nat.add_assoc]
            · simp [hfit]

namespace StartTagText

variable (t : StartTagText)

/-- A tag name stops at the first blank, slash or bracket behind it. -/
theorem name_ends (rest : List Char) :
    ∃ d more, t.attributes.flatMap AttributeText.chars ++
        (endingChars t.trail t.selfClosing ++ rest) = d :: more ∧
      isPartChar d = false ∧ d ≠ ':' := by
  have hblank {c : Char} (hc : Text.isTagBlank c = true) : isPartChar c = false ∧ c ≠ ':' := by
    simp only [Text.isTagBlank, Bool.or_eq_true, beq_iff_eq] at hc
    rcases hc with (((rfl | rfl) | rfl) | rfl) | rfl <;> decide
  have hbehind {d : Char} (hd : isPartChar d = false ∧ d ≠ ':') (more : List Char) :
      ∃ e tail, t.trail.chars ++ d :: more = e :: tail ∧ isPartChar e = false ∧ e ≠ ':' := by
    rcases t.trail.head_append d more with ⟨e, tail, heq, hb | ⟨_, rfl⟩⟩
    · exact ⟨e, tail, heq, hblank hb⟩
    · exact ⟨_, tail, heq, hd⟩
  cases t.attributes with
  | cons a attributes =>
      rcases List.exists_cons_of_ne_nil a.lead_nonempty with ⟨b, blanks, hlead⟩
      have hb := hblank (a.lead.blank b (by simp [hlead]))
      exact ⟨b, _, by rw [List.flatMap_cons, AttributeText.chars, hlead]; rfl, hb⟩
  | nil =>
      cases t.selfClosing with
      | false => simpa [endingChars, Token.lexeme] using hbehind (d := '>') (by decide) rest
      | true => simpa [endingChars, Token.lexeme] using hbehind (d := '/') (by decide) ('>' :: rest)

theorem readName?_chars (rest : List Char) :
    readName? (t.name ++ (t.attributes.flatMap AttributeText.chars ++
        (endingChars t.trail t.selfClosing ++ rest))) =
      some (t.name, t.attributes.flatMap AttributeText.chars ++
        (endingChars t.trail t.selfClosing ++ rest)) := by
  rcases t.name_ends rest with ⟨d, more, heq, hd, hcolon⟩
  rw [heq, readName?_append_stop hd hcolon, t.name_read]
  rfl

/-- At a text of the grammar its start tag is read, whatever follows it, unless it goes beyond the
bounds. -/
theorem read?_eq (offset : Nat) (rest : List Char) :
    StartTag.read? ⟨offset, t.chars ++ rest⟩ =
      if t.Fits then some (t.tagAt offset, ⟨offset + Text.byteLength t.chars, rest⟩)
      else none := by
  have hname := t.readName?_chars rest
  have hattributes := readAttributes?_chars t.apart maxAttributes
    (offset + Text.byteLength ('<' :: t.name)) rest
  have hbytes : offset + Text.byteLength ('<' :: t.name) +
      Text.byteLength (t.attributes.flatMap AttributeText.chars ++
        endingChars t.trail t.selfClosing) = offset + Text.byteLength t.chars := by
    simp only [chars, Text.byteLength_cons, Text.byteLength_append]
    omega
  rw [hbytes] at hattributes
  simp only [StartTag.read?, chars, List.cons_append, List.append_assoc, hname, Cursor.advance,
    hattributes]
  by_cases hfits : t.Fits
  · have hfit : AttributeText.Fit maxAttributes t.attributes := hfits
    rw [if_pos hfits, if_pos hfit]
    rfl
  · have hfit : ¬AttributeText.Fit maxAttributes t.attributes := hfits
    rw [if_neg hfits, if_neg hfit]

/-- A start tag within the bounds is read as it is written: name, attributes in order with their
decoded values, and the slash. Values that are written escaped come back. -/
theorem read?_written (hcount : t.attributes.length ≤ maxAttributes)
    (hnames : ∀ a ∈ t.attributes, Text.byteLength a.name ≤ maxNameBytes) (offset : Nat)
    (rest : List Char) :
    ∃ tag, StartTag.read? ⟨offset, t.chars ++ rest⟩ =
        some (tag, ⟨offset + Text.byteLength t.chars, rest⟩) ∧
      tag.name = String.ofList t.name ∧
      tag.attributes.map (fun a => (a.name, a.value)) =
        t.attributes.map (fun a => (String.ofList a.name, String.ofList a.assignment.value)) ∧
      tag.selfClosing = t.selfClosing ∧
      tag.span = ⟨offset, offset + Text.byteLength t.chars⟩ ∧
      ∀ values : List String,
        List.Forall₂ (fun a value => ∃ before after, a.assignment = .escaped before after value)
          t.attributes values →
        tag.attributes.map (·.value) = values := by
  have hfits : t.Fits := ⟨hcount, hnames⟩
  refine ⟨t.tagAt offset, by rw [t.read?_eq, if_pos hfits], rfl, ?_, rfl, rfl, ?_⟩
  · exact AttributeText.map_attributesAt _ _ (fun _ _ => rfl) _ _
  · intro values hvalues
    have hmap : (t.tagAt offset).attributes.map (·.value) =
        t.attributes.map (fun a => String.ofList a.assignment.value) :=
      AttributeText.map_attributesAt _ _ (fun _ _ => rfl) _ _
    rw [hmap, AttributeText.map_escaped hvalues]

/-- `<b title="a&#10;b" hidden lang = a/ />`: a value that is written escaped, none at all, and one
that ends with a slash. -/
def sample : StartTagText where
  name := "b".toList
  attributes :=
    [{ lead := .space, name := "title".toList, assignment := .escaped .none .none "a\nb"
       lead_nonempty := Blanks.space_ne_nil, name_nonempty := by decide
       name_chars := List.all_eq_true.1 (by decide) },
      { lead := .space, name := "hidden".toList, assignment := .absent
        lead_nonempty := Blanks.space_ne_nil, name_nonempty := by decide
        name_chars := List.all_eq_true.1 (by decide) },
      { lead := .space, name := "lang".toList
        assignment := .bare .space .space "a/".toList (by decide) (List.all_eq_true.1 (by decide))
        lead_nonempty := Blanks.space_ne_nil, name_nonempty := by decide
        name_chars := List.all_eq_true.1 (by decide) }]
  trail := .space
  selfClosing := true
  name_read := by decide
  apart := nofun

theorem read?_written_sample :
    sample.chars = "<b title=\"a&#10;b\" hidden lang = a/ />".toList ∧
      sample.attributes.length ≤ maxAttributes ∧
      (∀ a ∈ sample.attributes, Text.byteLength a.name ≤ maxNameBytes) ∧
      ∃ tag, StartTag.read? ⟨0, sample.chars ++ "x</b>".toList⟩ = some (tag, ⟨38, "x</b>".toList⟩) ∧
        tag.attributes.map (fun a => (a.name, a.value)) =
          [("title", "a\nb"), ("hidden", ""), ("lang", "a/")] ∧
        tag.selfClosing = true := by
  have hcount : sample.attributes.length ≤ maxAttributes := by decide
  have hnames : ∀ a ∈ sample.attributes, Text.byteLength a.name ≤ maxNameBytes := by decide
  rcases read?_written sample hcount hnames 0 "x</b>".toList with
    ⟨tag, hread, _, hattributes, hclosing, _⟩
  refine ⟨by decide, hcount, hnames, tag, hread, ?_, hclosing⟩
  rw [hattributes]
  decide +kernel

end StartTagText
end Tag
end TemplateMarkup
