import TemplateMarkup.Proofs.Reference.DecodeOffsets
import TemplateMarkup.Proofs.Tag.Spelled

/-!
# Reading tags at byte offsets

Tags can also be read with an offset into the whole source instead of a cursor. A name and a value
without quotes are then measured in bytes, every text is cut out of the source, and a cut may fail.
Spans have 32 bits for each of their ends there, so that no end is further than `Span.maxOffset`.
This file defines that reading:

* `Span.clamp`, `Span.between` — offsets and spans in 32 bits,
* `Tag.nameStop?` — where a name ends,
* `Tag.nextBytes?`, `Tag.valueBytes?`, `Tag.attributesBytes?` — the parts of a start tag,
* `StartTag.readBytes?`, `EndTag.readBytes?` — whole tags,

each of the readers `none` where a cut fails and `some none` where there is nothing to read. From a
cursor in the source no cut fails, and the same is read but for the spans, which are clamped
(`StartTag.readBytes?_eq`, `EndTag.readBytes?_eq`). In a short source they are not
(`StartTag.clamped_eq`, `EndTag.clamped_eq`).
-/

namespace TemplateMarkup

open Text (byte byteLength)

/-! ## Spans in 32 bits -/

namespace Span

/-- The furthest offset that 32 bits have room for. -/
def maxOffset : Nat := UInt32.size - 1

/-- An offset in 32 bits: all that are too far become the furthest. -/
def clamp (offset : Nat) : Nat :=
  min offset maxOffset

/-- The span from one offset to another, in 32 bits. -/
def between (start stop : Nat) : Span :=
  ⟨clamp start, clamp stop⟩

def clamped (s : Span) : Span :=
  between s.start s.stop

theorem clamp_of_le {offset : Nat} (h : offset ≤ maxOffset) : clamp offset = offset :=
  Nat.min_eq_left h

theorem between_of_le {start stop : Nat} (hle : start ≤ stop) (h : stop ≤ maxOffset) :
    between start stop = ⟨start, stop⟩ := by
  rw [between, clamp_of_le (Nat.le_trans hle h), clamp_of_le h]

/-- In a source of less than 4 GiB there is room for all spans. -/
theorem Covers.clamped_eq {source : String} {s : Span} {inside : List Char}
    (h : Covers source s inside) (hsize : byteLength source.toList ≤ maxOffset) : s.clamped = s :=
  between_of_le h.start_le (Nat.le_trans h.stop_le hsize)

end Span

def Attribute.clamped (a : Attribute) : Attribute :=
  { a with span := a.span.clamped }

def StartTag.clamped (tag : StartTag) : StartTag :=
  { tag with attributes := tag.attributes.map Attribute.clamped, span := tag.span.clamped }

def EndTag.clamped (tag : EndTag) : EndTag :=
  { tag with span := tag.span.clamped }

/-! ## Cuts at cursors -/

namespace Cursor

variable {source : String} {c d : Cursor} {taken : List Char}

theorem At.from?_eq (h : c.At source) : Text.from? c.offset source.toList = some c.rest := by
  rcases h with ⟨front, hsource, hoffset⟩
  rw [hsource, hoffset]
  exact Text.from?_byteLength front c.rest

theorem At.between?_eq (h : c.At source) (htakes : c.Takes taken d) :
    Text.between? c.offset d.offset source.toList = some taken := by
  rcases h with ⟨front, hsource, hoffset⟩
  rw [hsource, htakes.rest_eq, htakes.offset_eq, hoffset, ← List.append_assoc]
  exact Text.between?_byteLength front taken d.rest

/-- The byte at a cursor tells whether an ASCII mark stands there. -/
theorem At.getElem?_eq_iff {mark : Char} (h : c.At source) (hmark : mark.toNat < 128) :
    (Text.bytes source.toList)[c.offset]? = some (byte mark) ↔ c.rest.head? = some mark := by
  rcases h with ⟨front, hsource, hoffset⟩
  rw [hsource, hoffset, Text.getElem?_bytes]
  exact Text.head?_bytes hmark c.rest

end Cursor

/-! ## Names -/

namespace Tag

/-- Where the longest part at `start` ends. -/
def partStop? (bytes : List UInt8) (start : Nat) : Option Nat :=
  if bytes[start]?.any fun b => isPartStart (Text.ofByte b) then
    some (start + ((bytes.drop start).takeWhile fun b => isPartChar (Text.ofByte b)).length)
  else none

/-- Where the longest name at `start` ends. -/
def longNameStop? (bytes : List UInt8) (start : Nat) : Option Nat :=
  match partStop? bytes start with
  | none => none
  | some stop =>
      if bytes[stop]? = some (byte ':') then some ((partStop? bytes (stop + 1)).getD stop)
      else some stop

/-- Where the name at `start` ends, if it is not too long. -/
def nameStop? (bytes : List UInt8) (start : Nat) : Option Nat :=
  (longNameStop? bytes start).filter fun stop => stop - start ≤ maxNameBytes

/-! ## Start tags -/

/-- The token at `start`, and where it ends. -/
def tokenBytes? (source : List Char) (start : Nat) : Option (Option (Token × Nat)) :=
  (Text.from? start source).map fun rest =>
    (Token.read? rest).map fun found => (found.1, start + byteLength found.1.lexeme)

/-- The next token that is no blank, with where it starts and where it ends. -/
def nextBytes? (source : List Char) (index : Nat) : Option (Option (Nat × Token × Nat)) :=
  match Text.from? index source with
  | none => none
  | some rest =>
      let start := index + byteLength (rest.takeWhile Text.isTagBlank)
      (tokenBytes? source start).map fun token => token.map fun found => (start, found.1, found.2)

/-- The value written from `start` to `stop`, behind which reading goes on at `next`. -/
def decodedBytes? (source : List Char) (start stop next : Nat) :
    Option (Option (List Char × Nat)) :=
  match Text.between? start stop source with
  | none => none
  | some raw =>
      (Reference.decodeBytes Reference.inAttribute raw).map fun value => some (value, next)

/-- The value without quotes at `start`. -/
def unquotedBytes? (source : List Char) (start : Nat) : Option (Option (List Char × Nat)) :=
  match Text.from? start source with
  | none => none
  | some rest =>
      let stop := start +
        ((Text.bytes rest).takeWhile fun b => isUnquotedChar (Text.ofByte b)).length
      if start < stop then decodedBytes? source start stop stop else some none

/-- The value at `start`, where something other than a blank stands. -/
def assignedBytes? (source : List Char) (start : Nat) : Option (Option (List Char × Nat)) :=
  match tokenBytes? source start with
  | none => none
  | some (some (.quoted _ _, stop)) => decodedBytes? source (start + 1) (stop - 1) stop
  | some _ => unquotedBytes? source start

/-- The value that follows an attribute name. -/
def valueBytes? (source : List Char) (index : Nat) : Option (Option (List Char × Nat)) :=
  match nextBytes? source index with
  | none => none
  | some (some (_, .equals, afterEquals)) =>
      match nextBytes? source afterEquals with
      | none => none
      | some none => some none
      | some (some (start, _, _)) => assignedBytes? source start
  | some _ => some (some ([], index))

/-- At most `room` attributes and the closing bracket behind them. -/
def attributesBytes? (source : List Char) (room index : Nat) :
    Option (Option (List Attribute × Bool × Nat)) :=
  match nextBytes? source index with
  | none => none
  | some (some (_, .close selfClosing, stop)) => some (some ([], selfClosing, stop))
  | some (some (start, .name _, afterName)) =>
      match room with
      | 0 => some none
      | room + 1 =>
          if maxNameBytes < afterName - start then some none
          else match valueBytes? source afterName with
            | none => none
            | some none => some none
            | some (some (value, stop)) =>
                match Text.between? start afterName source, attributesBytes? source room stop with
                | some text, some (some (attributes, selfClosing, last)) =>
                    some (some
                      ({ name := String.ofList text
                         value := String.ofList value
                         span := .between start stop } :: attributes,
                        selfClosing, last))
                | some _, some none => some none
                | _, _ => none
  | some _ => some none

variable {front rest cs : List Char}

theorem asciiTest_isPartChar : Text.AsciiTest isPartChar := by
  refine .of_eq_true fun c h => ?_
  simp only [isPartChar, Bool.or_eq_true, beq_iff_eq] at h
  rcases h with ((h | rfl) | rfl) | rfl
  · exact Text.toNat_lt_of_isAlphanum h
  all_goals decide

theorem asciiTest_isPartStart : Text.AsciiTest isPartStart := by
  refine .of_eq_true fun c h => ?_
  simp only [isPartStart, Bool.or_eq_true, beq_iff_eq] at h
  rcases h with h | rfl
  · exact Text.toNat_lt_of_isAlphanum (by simp [Char.isAlphanum, h])
  · decide

theorem asciiTest_isUnquotedChar : Text.AsciiTest isUnquotedChar := by
  refine .of_not (.of_eq_true fun c h => ?_)
  simp only [Text.isTagBlank, Bool.or_eq_true, beq_iff_eq] at h
  rcases h with ((((((((((rfl | rfl) | rfl) | rfl) | rfl) | rfl) | rfl) | rfl) | rfl) | rfl) | rfl)
  all_goals decide

theorem readPart?_eq_ite (cs : List Char) :
    readPart? cs =
      if cs.head?.any isPartStart then some (cs.takeWhile isPartChar, cs.dropWhile isPartChar)
      else none := by
  cases cs with
  | nil => rfl
  | cons c cs =>
      rw [readPart?, List.head?_cons, Option.any_some]
      by_cases hc : isPartStart c = true
      · have hchar : isPartChar c = true := by
          cases h : isPartChar c with
          | true => rfl
          | false => rw [isPartStart_eq_false h] at hc; cases hc
        simp [hc, hchar]
      · simp [hc]

/-- A part in the middle of a text ends where the same part at the front of what follows ends. -/
theorem partStop?_eq (front rest : List Char) :
    partStop? (Text.bytes (front ++ rest)) (byteLength front) =
      (readPart? rest).map fun found => byteLength front + byteLength found.1 := by
  rw [partStop?, readPart?_eq_ite, Text.getElem?_bytes, Text.drop_bytes,
    asciiTest_isPartStart.any_head?_bytes, asciiTest_isPartChar.takeWhile_bytes, Text.length_bytes]
  split
  · rfl
  · rfl

theorem longNameStop?_eq (front rest : List Char) :
    longNameStop? (Text.bytes (front ++ rest)) (byteLength front) =
      (readLongName? rest).map fun found => byteLength front + byteLength found.1 := by
  rw [longNameStop?, partStop?_eq, readLongName?]
  cases hfirst : readPart? rest with
  | none => rfl
  | some found =>
      rcases found with ⟨first, tail⟩
      have hrest : front ++ rest = front ++ first ++ tail := by
        rw [(readPart?_eq_some hfirst).1, List.append_assoc]
      have hcolon : (Text.bytes (front ++ rest))[byteLength front + byteLength first]? =
          some (byte ':') ↔ tail.head? = some ':' := by
        rw [hrest, ← Text.byteLength_append, Text.getElem?_bytes]
        exact Text.head?_bytes (by decide) tail
      dsimp only [Option.map_some]
      by_cases htail : tail.head? = some ':'
      · rw [if_pos (hcolon.2 htail)]
        rcases List.head?_eq_some_iff.1 htail with ⟨behind, rfl⟩
        -- The second part stands behind the colon.
        have hsecond := partStop?_eq (front ++ first ++ [':']) behind
        have hlength : byteLength (front ++ first ++ [':']) =
            byteLength front + byteLength first + 1 := by
          rw [Text.byteLength_append, Text.byteLength_append]
          rfl
        rw [hlength, List.append_assoc, List.singleton_append, ← hrest] at hsecond
        rw [hsecond]
        cases hpart : readPart? behind with
        | none => simp [hpart]
        | some found =>
            have hsize : ':'.utf8Size = 1 := rfl
            simp only [hpart, Option.map_some, Option.getD_some, Option.some.injEq,
              Text.byteLength_append, Text.byteLength_cons, hsize]
            omega
      · rw [if_neg (fun h => htail (hcolon.1 h))]
        cases tail with
        | nil => rfl
        | cons c tail =>
            have hc : c ≠ ':' := fun hc => htail (congrArg some hc)
            simp [hc]

/-- A name in the middle of a text ends where the same name at the front of what follows ends. -/
theorem nameStop?_eq (front rest : List Char) :
    nameStop? (Text.bytes (front ++ rest)) (byteLength front) =
      (readName? rest).map fun found => byteLength front + byteLength found.1 := by
  rw [nameStop?, longNameStop?_eq, readName?]
  cases readLongName? rest with
  | none => rfl
  | some found =>
      by_cases hle : byteLength found.1 ≤ maxNameBytes
      · simp [Option.filter, hle]
      · simp [Option.filter, hle]

variable {source : String} {c start stop : Cursor} {token : Token}

theorem tokenBytes?_eq (h : start.At source) :
    tokenBytes? source.toList start.offset =
      some ((Token.read? start.rest).map fun found =>
        (found.1, start.offset + byteLength found.1.lexeme)) := by
  rw [tokenBytes?, h.from?_eq]
  rfl

theorem nextBytes?_eq (h : c.At source) :
    nextBytes? source.toList c.offset =
      some ((Token.next? c).map fun found => (found.1.offset, found.2.1, found.2.2.offset)) := by
  let start := c.advance (c.rest.takeWhile Text.isTagBlank) (c.rest.dropWhile Text.isTagBlank)
  have hstart : start.At source :=
    h.takes (Cursor.takes_advance List.takeWhile_append_dropWhile.symm)
  have htoken := tokenBytes?_eq hstart
  have hoffset : c.offset + byteLength (c.rest.takeWhile Text.isTagBlank) = start.offset := rfl
  rw [nextBytes?, h.from?_eq]
  dsimp only
  rw [hoffset, tokenBytes?_eq hstart, show start.rest = c.rest.dropWhile Text.isTagBlank from rfl]
  cases hread : Token.read? (c.rest.dropWhile Text.isTagBlank) with
  | none =>
      have hnext : Token.next? c = none := by simp [Token.next?, Cursor.advance, hread]
      rw [hnext]
      rfl
  | some found =>
      rw [Token.next?_of_read? hread]
      rfl

theorem decodedBytes?_eq {raw : List Char} {next : Nat}
    (h : Text.between? start.offset stop.offset source.toList = some raw) :
    decodedBytes? source.toList start.offset stop.offset next =
      some (some (Reference.decodeAttribute raw, next)) := by
  rw [decodedBytes?, h]
  dsimp only
  rw [Reference.decodeBytes_eq]
  rfl

/-- A value without quotes is read whatever token it starts with. -/
theorem unquotedBytes?_eq (h : start.At source) (stop : Cursor) :
    unquotedBytes? source.toList start.offset =
      some ((readAssigned? start .invalid stop).map fun found => (found.1, found.2.offset)) := by
  have htakes : start.Takes (start.rest.takeWhile isUnquotedChar)
      (start.advance (start.rest.takeWhile isUnquotedChar)
        (start.rest.dropWhile isUnquotedChar)) :=
    Cursor.takes_advance List.takeWhile_append_dropWhile.symm
  have hcut := h.between?_eq htakes
  rw [unquotedBytes?, h.from?_eq, readAssigned?]
  · dsimp only
    rw [asciiTest_isUnquotedChar.takeWhile_bytes, Text.length_bytes]
    cases hraw : start.rest.takeWhile isUnquotedChar with
    | nil => simp
    | cons c raw =>
        have hpos := Text.byteLength_pos (List.cons_ne_nil c raw)
        rw [hraw] at hcut
        rw [if_pos (by omega)]
        exact decodedBytes?_eq hcut
  · intro mark body heq
    cases heq

theorem assignedBytes?_eq (h : start.At source)
    (hread : Token.read? start.rest = some (token, stop.rest))
    (htakes : start.Takes token.lexeme stop) :
    assignedBytes? source.toList start.offset =
      some ((readAssigned? start token stop).map fun found => (found.1, found.2.offset)) := by
  rw [assignedBytes?, tokenBytes?_eq h, hread]
  dsimp only [Option.map_some]
  rw [← htakes.offset_eq]
  cases token with
  | quoted mark body =>
      -- The value stands between two marks of one byte each.
      rcases Token.read?_eq_quoted hread with ⟨hmark, _⟩
      have hsize : mark.utf8Size = 1 := by rcases hmark with rfl | rfl <;> rfl
      let first : Cursor := ⟨start.offset + 1, body ++ mark :: stop.rest⟩
      let last : Cursor := ⟨stop.offset - 1, mark :: stop.rest⟩
      have hfirst : start.Takes [mark] first :=
        ⟨by rw [htakes.rest_eq]; simp [Token.lexeme, first], by simp [first, hsize]⟩
      have hlast : first.Takes body last := by
        refine ⟨rfl, ?_⟩
        have hoffset := htakes.offset_eq
        simp only [Token.lexeme, Text.byteLength_cons, Text.byteLength_append, hsize,
          Text.byteLength_nil] at hoffset
        simp only [first, last]
        omega
      exact decodedBytes?_eq ((h.takes hfirst).between?_eq hlast)
  | name text => exact unquotedBytes?_eq h stop
  | equals => exact unquotedBytes?_eq h stop
  | close selfClosing => exact unquotedBytes?_eq h stop
  | invalid => exact unquotedBytes?_eq h stop

theorem valueBytes?_eq (h : c.At source) :
    valueBytes? source.toList c.offset =
      some ((readValue? c).map fun found => (found.1, found.2.offset)) := by
  rw [valueBytes?, nextBytes?_eq h, readValue?]
  cases hnext : Token.next? c with
  | none => rfl
  | some found =>
      rcases found with ⟨start, token, afterToken⟩
      cases token with
      | equals =>
          -- Only behind an equals sign there is a value to read.
          rcases Token.next?_takes hnext with ⟨⟨blanks, hblanks⟩, hsign⟩
          have hafter := h.takes (hblanks.trans hsign)
          dsimp only [Option.map_some]
          rw [nextBytes?_eq hafter]
          cases hvalue : Token.next? afterToken with
          | none => rfl
          | some found =>
              rcases found with ⟨start', token', stop'⟩
              rcases Token.next?_eq_some hvalue with ⟨_, hblanks', hread, htakes⟩
              exact assignedBytes?_eq (hafter.takes hblanks') hread htakes
      | name text => rfl
      | quoted mark body => rfl
      | close selfClosing => rfl
      | invalid => rfl

theorem attributesBytes?_eq (room : Nat) (h : c.At source) :
    attributesBytes? source.toList room c.offset =
      some ((readAttributes? room c).map fun found =>
        (found.1.map Attribute.clamped, found.2.1, found.2.2.offset)) := by
  induction room generalizing c with
  | zero =>
      rw [attributesBytes?, nextBytes?_eq h, readAttributes?]
      cases Token.next? c with
      | none => rfl
      | some found =>
          rcases found with ⟨start, token, stop⟩
          cases token with
          | name | equals | quoted | close | invalid => rfl
  | succ room ih =>
      rw [attributesBytes?, nextBytes?_eq h, readAttributes?]
      cases hnext : Token.next? c with
      | none => rfl
      | some found =>
          rcases found with ⟨start, token, afterName⟩
          cases token with
          | name text =>
              -- The name is measured where it starts, and cut out once its value has been read.
              rcases Token.next?_takes hnext with ⟨⟨blanks, hblanks⟩, hname⟩
              have hstart := h.takes hblanks
              have hafter := hstart.takes hname
              have hlength : afterName.offset - start.offset = byteLength text := by
                rw [hname.offset_eq]
                exact Nat.add_sub_cancel_left _ _
              have hcut : Text.between? start.offset afterName.offset source.toList = some text :=
                hstart.between?_eq hname
              dsimp only [Option.map_some]
              rw [hlength]
              by_cases hlong : maxNameBytes < byteLength text
              · rw [if_pos hlong, if_pos hlong]
                rfl
              · rw [if_neg hlong, if_neg hlong, valueBytes?_eq hafter]
                cases hvalue : readValue? afterName with
                | none => rfl
                | some found =>
                    rcases found with ⟨value, stop⟩
                    rcases readValue?_takes hvalue with ⟨taken, htaken⟩
                    dsimp only [Option.map_some]
                    rw [hcut, ih (hafter.takes htaken)]
                    cases readAttributes? room stop with
                    | none => rfl
                    | some found => rfl
          | equals => rfl
          | quoted mark body => rfl
          | close selfClosing => rfl
          | invalid => rfl

end Tag

/-! ## Whole tags -/

/-- The start tag at `start`, which has to stand on the opening bracket. -/
def StartTag.readBytes? (source : List Char) (start : Nat) : Option (Option StartTag) :=
  if (Text.bytes source)[start]? = some (byte '<') then
    match Tag.nameStop? (Text.bytes source) (start + 1) with
    | none => some none
    | some stop =>
        match Text.between? (start + 1) stop source,
          Tag.attributesBytes? source Tag.maxAttributes stop with
        | some name, some (some (attributes, selfClosing, last)) =>
            some (some
              { name := String.ofList name, attributes, selfClosing, span := .between start last })
        | some _, some none => some none
        | _, _ => none
  else some none

/-- The end tag at `start`, which has to stand on the opening bracket. -/
def EndTag.readBytes? (source : List Char) (start : Nat) : Option (Option EndTag) :=
  match Text.from? start source with
  | none => none
  | some rest =>
      match Text.after? ['<', '/'] rest with
      | none => some none
      | some _ =>
          match Tag.nameStop? (Text.bytes source) (start + 2) with
          | none => some none
          | some stop =>
              match Text.from? stop source with
              | none => none
              | some rest =>
                  match ((Text.bytes rest).take Tag.maxNameBytes).findIdx? (· == byte '>') with
                  | none => some none
                  | some trailing =>
                      (Text.between? (start + 2) stop source).map fun name =>
                        some
                          { name := String.ofList name
                            span := .between start (stop + trailing + 1) }

variable {source : String} {c : Cursor}

theorem Cursor.At.nameStop?_eq (h : c.At source) :
    Tag.nameStop? (Text.bytes source.toList) c.offset =
      (Tag.readName? c.rest).map fun found => c.offset + byteLength found.1 := by
  rcases h with ⟨front, hsource, hoffset⟩
  rw [hsource, hoffset]
  exact Tag.nameStop?_eq front c.rest

/-- From a cursor in the source no cut fails, and the same start tag is read. -/
theorem StartTag.readBytes?_eq (h : c.At source) :
    StartTag.readBytes? source.toList c.offset =
      some ((StartTag.read? c).map fun found => found.1.clamped) := by
  have hbracket := h.getElem?_eq_iff (show '<'.toNat < 128 by decide)
  unfold read?
  split
  · next cs hcs =>
      have hhead : c.rest.head? = some '<' := by rw [hcs]; rfl
      -- The name stands behind the bracket, and the attributes behind the name.
      let inner := c.advance ['<'] cs
      have hinner : inner.At source := h.takes (Cursor.takes_advance hcs)
      have hoffset : inner.offset = c.offset + 1 := rfl
      rw [readBytes?, if_pos (hbracket.2 hhead), ← hoffset, hinner.nameStop?_eq,
        show inner.rest = cs from rfl]
      cases hname : Tag.readName? cs with
      | none => rfl
      | some found =>
          rcases found with ⟨name, rest⟩
          have htakes : inner.Takes name (c.advance ('<' :: name) rest) := by
            refine ⟨(Tag.readName?_eq_some hname).1, ?_⟩
            simp only [inner, Cursor.advance, Text.byteLength_cons, Text.byteLength_nil]
            omega
          have hcut := hinner.between?_eq htakes
          have hattributes := Tag.attributesBytes?_eq Tag.maxAttributes (hinner.takes htakes)
          rw [htakes.offset_eq] at hcut hattributes
          dsimp only [Option.map_some]
          rw [hcut, hattributes]
          cases Tag.readAttributes? Tag.maxAttributes (c.advance ('<' :: name) rest) with
          | none => rfl
          | some found => rfl
  · next hne =>
      have hhead : c.rest.head? ≠ some '<' := Text.head?_ne_some hne
      rw [readBytes?, if_neg (fun heq => hhead (hbracket.1 heq))]
      rfl

/-- From a cursor in the source no cut fails, and the same end tag is read. -/
theorem EndTag.readBytes?_eq (h : c.At source) :
    EndTag.readBytes? source.toList c.offset =
      some ((EndTag.read? c).map fun found => found.1.clamped) := by
  unfold read?
  split
  · next cs hcs =>
      have hlead : Text.after? ['<', '/'] c.rest = some cs := by
        rw [hcs]
        exact Text.after?_append ['<', '/'] cs
      let inner := c.advance ['<', '/'] cs
      have hinner : inner.At source := h.takes (Cursor.takes_advance hcs)
      have hoffset : inner.offset = c.offset + 2 := rfl
      rw [readBytes?, h.from?_eq]
      dsimp only
      rw [hlead]
      dsimp only
      rw [← hoffset, hinner.nameStop?_eq, show inner.rest = cs from rfl]
      cases hname : Tag.readName? cs with
      | none => rfl
      | some found =>
          rcases found with ⟨name, rest⟩
          have htakes : inner.Takes name (inner.advance name rest) :=
            Cursor.takes_advance (Tag.readName?_eq_some hname).1
          have hcut := hinner.between?_eq htakes
          have hrest := (hinner.takes htakes).from?_eq
          -- The closing bracket is looked for in as many bytes as may stand in front of it.
          have hnear := Text.findIdx?_take_bytes (show '>'.toNat < 128 by decide)
            maxTrailingBytes rest
          rw [htakes.offset_eq] at hcut hrest
          dsimp only [Option.map_some]
          rw [hrest]
          dsimp only [Cursor.advance]
          rw [show Tag.maxNameBytes = maxTrailingBytes + 1 from rfl, hnear]
          cases Text.breakWithin? '>' maxTrailingBytes rest with
          | none => rfl
          | some found =>
              rcases found with ⟨trailing, rest'⟩
              have hlast : inner.offset + byteLength name + byteLength trailing + 1 =
                  c.offset + byteLength ('<' :: '/' :: (name ++ trailing ++ ['>'])) := by
                have hlead : '<'.utf8Size = 1 ∧ '/'.utf8Size = 1 ∧ byteLength ['>'] = 1 :=
                  ⟨rfl, rfl, rfl⟩
                rw [hoffset, Text.byteLength_cons, Text.byteLength_cons, Text.byteLength_append,
                  Text.byteLength_append]
                omega
              dsimp only [Option.map_some]
              rw [hcut, hlast]
              rfl
  · next hne =>
      have hlead : Text.after? ['<', '/'] c.rest = none := by
        rw [Option.eq_none_iff_forall_ne_some]
        intro cs hcs
        exact hne cs (Text.after?_eq_some hcs)
      rw [readBytes?, h.from?_eq]
      dsimp only
      rw [hlead]
      rfl

/-! ## Short sources -/

theorem StartTag.clamped_eq {last : Cursor} {tag : StartTag} (hc : c.At source)
    (h : StartTag.read? c = some (tag, last)) (hsize : byteLength source.toList ≤ Span.maxOffset) :
    tag.clamped = tag := by
  rcases StartTag.read?_takes h with ⟨taken, _, htakes, hspan⟩
  have hcovers := hc.covers htakes
  rw [← hspan] at hcovers
  have hattributes : tag.attributes.map Attribute.clamped = tag.attributes := by
    refine (List.map_congr_left fun a ha => ?_).trans (List.map_id _)
    rcases StartTag.read?_covers hc h a ha with ⟨inside, hinside⟩
    rw [Attribute.clamped, hinside.clamped_eq hsize]
    rfl
  rw [StartTag.clamped, hattributes, hcovers.clamped_eq hsize]

theorem EndTag.clamped_eq {last : Cursor} {tag : EndTag} (hc : c.At source)
    (h : EndTag.read? c = some (tag, last)) (hsize : byteLength source.toList ≤ Span.maxOffset) :
    tag.clamped = tag := by
  rcases EndTag.read?_eq_some_iff.1 h with ⟨name, trailing, _, htakes, htag⟩
  have hcovers := hc.covers htakes
  have hspan : tag.span = ⟨c.offset, last.offset⟩ := by rw [htag]
  rw [← hspan] at hcovers
  rw [EndTag.clamped, hcovers.clamped_eq hsize]

end TemplateMarkup
