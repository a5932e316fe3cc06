import TemplateMarkup.Proofs.Text.Cutting
import TemplateMarkup.Tag.Declaration
import TemplateMarkup.Tag.End

/-!
# Declarations and end tags as they are written

What the readers of declarations and end tags take off a text is described here by its form alone.
The forms end in a mark of their own, so nothing that follows them matters:

* `Cursor.Takes c taken d` — reading `taken` leads from one cursor to another,
* `Tag.readName?_append_stop` — a name ends where a character stands that no name holds,
* `Declaration.Complete taken` — a whole comment, bracketed section or document type, which is
  what `Declaration.read?` reads,
* `EndTag.Written name trailing` — an end tag, which is what `EndTag.read?` reads.
-/

namespace TemplateMarkup

/-! ## Cursors -/

namespace Cursor

variable {c d e : Cursor} {taken more rest : List Char}

/-- Reading `taken` leads from `c` to `d`. -/
structure Takes (c : Cursor) (taken : List Char) (d : Cursor) : Prop where
  rest_eq : c.rest = taken ++ d.rest
  offset_eq : d.offset = c.offset + Text.byteLength taken

theorem takes_advance (h : c.rest = taken ++ rest) : c.Takes taken (c.advance taken rest) :=
  ⟨h, rfl⟩

theorem Takes.refl (c : Cursor) : c.Takes [] c :=
  ⟨rfl, rfl⟩

theorem Takes.trans (h : c.Takes taken d) (hmore : d.Takes more e) : c.Takes (taken ++ more) e where
  rest_eq := by
    rw [h.rest_eq, hmore.rest_eq, List.append_assoc]
  offset_eq := by
    rw [hmore.offset_eq, h.offset_eq, Text.byteLength_append, Nat.add_assoc]

end Cursor

/-! ## Names -/

namespace Tag

variable {cs name tail : List Char} {stop : Char}

theorem takeWhile_append_stop {p : Char → Bool} (hstop : p stop = false) (cs rest : List Char) :
    (cs ++ stop :: rest).takeWhile p = cs.takeWhile p ∧
      (cs ++ stop :: rest).dropWhile p = cs.dropWhile p ++ stop :: rest := by
  induction cs with
  | nil => simp [hstop]
  | cons c cs ih =>
      -- Either the first character is taken and the rest as before, or nothing is.
      cases hc : p c with
      | true => simp [hc, ih.1, ih.2]
      | false => simp [hc]

theorem isPartStart_eq_false (h : isPartChar stop = false) : isPartStart stop = false := by
  simp only [isPartChar, Char.isAlphanum, Bool.or_eq_false_iff] at h
  simp [isPartStart, h]

/-- What has been read, with more text left behind it. -/
def leaving (more : List Char) (read : List Char × List Char) : List Char × List Char :=
  (read.1, read.2 ++ more)

theorem readPart?_append_stop (hstop : isPartChar stop = false) (cs rest : List Char) :
    readPart? (cs ++ stop :: rest) = (readPart? cs).map (leaving (stop :: rest)) := by
  cases cs with
  | nil => simp [readPart?, isPartStart_eq_false hstop]
  | cons c cs =>
      have hcs := takeWhile_append_stop hstop cs rest
      by_cases hc : isPartStart c = true
      · simp [readPart?, hc, hcs.1, hcs.2, leaving]
      · simp [readPart?, hc]

theorem readLongName?_append_stop (hstop : isPartChar stop = false) (hcolon : stop ≠ ':')
    (cs rest : List Char) :
    readLongName? (cs ++ stop :: rest) = (readLongName? cs).map (leaving (stop :: rest)) := by
  have hfirst := readPart?_append_stop hstop cs rest
  unfold readLongName?
  cases hpart : readPart? cs with
  | none => simp [hfirst, hpart]
  | some read =>
      rcases read with ⟨first, behind⟩
      rw [hpart, Option.map_some, leaving] at hfirst
      rw [hfirst]
      cases behind with
      | nil =>
          -- The part runs up to the stop, which is no colon.
          simp [leaving, hcolon]
      | cons d behind =>
          by_cases hd : d = ':'
          · subst hd
            have hsecond := readPart?_append_stop hstop behind rest
            cases hread : readPart? behind with
            | none => simp [hsecond, hread, leaving]
            | some second => simp [hsecond, hread, leaving]
          · simp [hd, leaving]

/-- A name ends where a character stands that no name holds. -/
theorem readName?_append_stop (hstop : isPartChar stop = false) (hcolon : stop ≠ ':')
    (cs rest : List Char) :
    readName? (cs ++ stop :: rest) = (readName? cs).map (leaving (stop :: rest)) := by
  unfold readName?
  rw [readLongName?_append_stop hstop hcolon]
  cases readLongName? cs with
  | none => rfl
  | some read =>
      by_cases hbytes : Text.byteLength read.1 ≤ maxNameBytes
      · simp [leaving, hbytes]
      · simp [leaving, hbytes]

theorem readName?_append (h : readName? cs = some (name, tail)) (rest : List Char) :
    readName? (cs ++ '>' :: rest) = some (name, tail ++ '>' :: rest) := by
  rw [readName?_append_stop (by decide) (by decide), h]
  rfl

/-- In front of a closing bracket, a name is read whatever follows the bracket. -/
theorem readName?_append_iff {behind : List Char} (rest : List Char) :
    readName? (cs ++ '>' :: rest) = some (name, tail ++ '>' :: rest) ↔
      readName? (cs ++ '>' :: behind) = some (name, tail ++ '>' :: behind) := by
  rw [readName?_append_stop (by decide) (by decide),
    readName?_append_stop (by decide) (by decide)]
  simp [Option.map_eq_some_iff, leaving]

end Tag

/-! ## Declarations -/

namespace Declaration

variable {cs taken rest : List Char}

/-- Lower case changes upper case letters only, and into lower case letters. -/
theorem eq_of_toLower_eq {c d : Char} (hd : d.isLower = false) (h : c.toLower = d) : c = d := by
  unfold Char.toLower at h
  split at h
  · next hupper =>
      exfalso
      have hnot : ¬('a'.val ≤ d.val ∧ d.val ≤ 'z'.val) := by
        rintro ⟨hge, hle⟩
        have hlower : d.isLower = true :=
          Bool.and_eq_true_iff.2 ⟨decide_eq_true hge, decide_eq_true hle⟩
        rw [hd] at hlower
        cases hlower
      subst h
      have hge := hupper.1
      have hle := hupper.2
      simp [UInt32.le_iff_toNat_le] at hnot hge hle
      omega
  · exact h

/-- `lead`, some text, and the first `tail` behind it. -/
def Delimited (lead tail taken : List Char) : Prop :=
  ∃ inside, taken = lead ++ inside ++ tail ∧ Text.FirstAt tail inside

/-- A whole comment. -/
def Comment (taken : List Char) : Prop :=
  Delimited "<!--".toList "-->".toList taken

/-- A whole bracketed section. -/
def Section (taken : List Char) : Prop :=
  Delimited "<![".toList "]>".toList taken

/-- A whole document type. -/
def Doctype (taken : List Char) : Prop :=
  ∃ lead inside, taken = lead ++ inside ++ [ '>' ] ∧ lead.map Char.toLower = doctypeLead ∧
    inside ≠ [] ∧ '>' ∉ inside

/-- A whole comment, bracketed section or document type. -/
def Complete (taken : List Char) : Prop :=
  Comment taken ∨ Section taken ∨ Doctype taken

/-- The readers of comments and of sections have the same form. -/
theorem delimited_iff {lead tail : List Char} :
    (match Text.after? lead cs with
      | none => none
      | some body =>
          match Text.breakOn? tail body with
          | none => none
          | some (inside, rest) => some (lead ++ inside ++ tail, rest)) = some (taken, rest) ↔
      Delimited lead tail taken ∧ cs = taken ++ rest := by
  constructor
  · intro h
    split at h
    · cases h
    · next body hbody =>
        split at h
        · cases h
        · next inside rest' hinside =>
            cases h
            rcases Text.breakOn?_eq_some_iff.1 hinside with ⟨rfl, hfirst⟩
            exact ⟨⟨inside, rfl, hfirst⟩, by simpa using Text.after?_eq_some hbody⟩
  · rintro ⟨⟨inside, rfl, hfirst⟩, rfl⟩
    have hbody : Text.after? lead (lead ++ inside ++ tail ++ rest) =
        some (inside ++ tail ++ rest) := by
      rw [Text.after?_eq_some_iff]
      simp
    have hinside : Text.breakOn? tail (inside ++ tail ++ rest) = some (inside, rest) :=
      Text.breakOn?_eq_some_iff.2 ⟨rfl, hfirst⟩
    simp only [hbody, hinside]

theorem readComment?_eq_some_iff :
    readComment? cs = some (taken, rest) ↔ Comment taken ∧ cs = taken ++ rest :=
  delimited_iff

theorem readSection?_eq_some_iff :
    readSection? cs = some (taken, rest) ↔ Section taken ∧ cs = taken ++ rest :=
  delimited_iff

theorem readDoctype?_eq_some_iff :
    readDoctype? cs = some (taken, rest) ↔ Doctype taken ∧ cs = taken ++ rest := by
  unfold readDoctype?
  dsimp only
  constructor
  · intro h
    split at h
    · next hlead =>
        split at h
        · next c inside rest' hinside =>
            cases h
            rcases Text.breakOn?_eq_some_iff.1 hinside with ⟨hdrop, hfirst⟩
            refine ⟨⟨cs.take doctypeLead.length, c :: inside, rfl, hlead, by simp,
              Text.firstAt_singleton.1 hfirst⟩, ?_⟩
            calc
              cs = cs.take doctypeLead.length ++ cs.drop doctypeLead.length :=
                  (List.take_append_drop _ _).symm
              _ = _ := by rw [hdrop]; simp
        · cases h
    · cases h
  · rintro ⟨⟨lead, inside, rfl, hlead, hne, hnot⟩, rfl⟩
    have hlength : lead.length = doctypeLead.length := by
      rw [← hlead, List.length_map]
    have htake : (lead ++ inside ++ [ '>' ] ++ rest).take doctypeLead.length = lead := by
      rw [← hlength, List.append_assoc, List.append_assoc, List.take_left]
    have hdrop : (lead ++ inside ++ [ '>' ] ++ rest).drop doctypeLead.length =
        inside ++ [ '>' ] ++ rest := by
      rw [← hlength, List.append_assoc, List.append_assoc, List.drop_left, List.append_assoc]
    have hinside : Text.breakOn? [ '>' ] (inside ++ [ '>' ] ++ rest) = some (inside, rest) :=
      Text.breakOn?_eq_some_iff.2 ⟨rfl, Text.firstAt_singleton.2 hnot⟩
    rw [htake, hdrop, if_pos hlead, hinside]
    cases inside with
    | nil => exact absurd rfl hne
    | cons c inside => rfl

/-! ### The three forms start differently -/

theorem Comment.head_eq (h : Comment taken) : ∃ tail, taken = '<' :: '!' :: '-' :: tail := by
  rcases h with ⟨inside, rfl, _⟩
  exact ⟨_, rfl⟩

theorem Section.head_eq (h : Section taken) : ∃ tail, taken = '<' :: '!' :: '[' :: tail := by
  rcases h with ⟨inside, rfl, _⟩
  exact ⟨_, rfl⟩

theorem Doctype.head_eq (h : Doctype taken) :
    ∃ d tail, taken = '<' :: '!' :: d :: tail ∧ d.toLower = 'd' := by
  rcases h with ⟨lead, inside, rfl, hlead, _⟩
  have hvalue : doctypeLead = '<' :: '!' :: 'd' :: "octype ".toList := rfl
  rw [hvalue] at hlead
  rcases List.map_eq_cons_iff.1 hlead with ⟨b, lead, rfl, hb, hlead⟩
  rcases List.map_eq_cons_iff.1 hlead with ⟨c, lead, rfl, hc, hlead⟩
  rcases List.map_eq_cons_iff.1 hlead with ⟨d, lead, rfl, hd, _⟩
  -- The first two characters are no letters, so they are what they fold to.
  refine ⟨d, lead ++ inside ++ [ '>' ], ?_, hd⟩
  rw [eq_of_toLower_eq (by decide) hb, eq_of_toLower_eq (by decide) hc]
  rfl

theorem Complete.head_eq (h : Complete taken) : ∃ tail, taken = '<' :: '!' :: tail := by
  rcases h with h | h | h
  · rcases h.head_eq with ⟨tail, rfl⟩
    exact ⟨_, rfl⟩
  · rcases h.head_eq with ⟨tail, rfl⟩
    exact ⟨_, rfl⟩
  · rcases h.head_eq with ⟨d, tail, rfl, _⟩
    exact ⟨_, rfl⟩

theorem readComment?_eq_none (h : ∀ tail, cs ≠ '<' :: '!' :: '-' :: tail) :
    readComment? cs = none := by
  rw [Option.eq_none_iff_forall_ne_some]
  rintro ⟨taken, rest⟩ hread
  rcases readComment?_eq_some_iff.1 hread with ⟨hcomment, rfl⟩
  rcases hcomment.head_eq with ⟨tail, rfl⟩
  exact h _ rfl

theorem readSection?_eq_none (h : ∀ tail, cs ≠ '<' :: '!' :: '[' :: tail) :
    readSection? cs = none := by
  rw [Option.eq_none_iff_forall_ne_some]
  rintro ⟨taken, rest⟩ hread
  rcases readSection?_eq_some_iff.1 hread with ⟨hsection, rfl⟩
  rcases hsection.head_eq with ⟨tail, rfl⟩
  exact h _ rfl

/-- What is read as a declaration is a complete one. -/
theorem read?_eq_some_iff :
    read? cs = some (taken, rest) ↔ Complete taken ∧ cs = taken ++ rest := by
  constructor
  · intro h
    unfold read? at h
    split at h
    · next hread =>
        rcases readComment?_eq_some_iff.1 (hread.trans h) with ⟨hcomment, hcs⟩
        exact ⟨.inl hcomment, hcs⟩
    · split at h
      · next hread =>
          rcases readSection?_eq_some_iff.1 (hread.trans h) with ⟨hsection, hcs⟩
          exact ⟨.inr (.inl hsection), hcs⟩
      · rcases readDoctype?_eq_some_iff.1 h with ⟨hdoctype, hcs⟩
        exact ⟨.inr (.inr hdoctype), hcs⟩
  · rintro ⟨hcomment | hsection | hdoctype, rfl⟩
    · simp [read?, readComment?_eq_some_iff.2 ⟨hcomment, rfl⟩]
    · have hnone : readComment? (taken ++ rest) = none := by
        rcases hsection.head_eq with ⟨tail, rfl⟩
        exact readComment?_eq_none (by simp)
      simp [read?, hnone, readSection?_eq_some_iff.2 ⟨hsection, rfl⟩]
    · have hnone : readComment? (taken ++ rest) = none ∧ readSection? (taken ++ rest) = none := by
        rcases hdoctype.head_eq with ⟨d, tail, rfl, hd⟩
        constructor
        · refine readComment?_eq_none fun tail' heq => ?_
          simp only [List.cons_append, List.cons.injEq] at heq
          exact absurd hd (by rw [heq.2.2.1]; decide)
        · refine readSection?_eq_none fun tail' heq => ?_
          simp only [List.cons_append, List.cons.injEq] at heq
          exact absurd hd (by rw [heq.2.2.1]; decide)
      simp [read?, hnone.1, hnone.2, readDoctype?_eq_some_iff.2 ⟨hdoctype, rfl⟩]

/-- A declaration starts with an opening bracket and an exclamation mark. -/
theorem read?_eq_none (h : ∀ rest, cs ≠ '<' :: '!' :: rest) : read? cs = none := by
  rw [Option.eq_none_iff_forall_ne_some]
  rintro ⟨taken, rest⟩ hread
  rcases read?_eq_some_iff.1 hread with ⟨hcomplete, rfl⟩
  rcases hcomplete.head_eq with ⟨tail, rfl⟩
  exact h _ rfl

end Declaration

/-! ## End tags -/

namespace EndTag

variable {c last : Cursor} {tag : EndTag} {name trailing : List Char}

/-- The characters of an end tag. -/
def chars (name trailing : List Char) : List Char :=
  '<' :: '/' :: (name ++ trailing ++ ['>'])

/-- An end tag can be written with this name, and with this text up to the closing bracket. -/
structure Written (name trailing : List Char) : Prop where
  name_read : Tag.readName? (name ++ trailing ++ ['>']) = some (name, trailing ++ ['>'])
  not_mem : '>' ∉ trailing
  trailing_le : Text.byteLength trailing ≤ maxTrailingBytes

theorem Written.readName?_eq (h : Written name trailing) (rest : List Char) :
    Tag.readName? (name ++ trailing ++ '>' :: rest) = some (name, trailing ++ '>' :: rest) :=
  (Tag.readName?_append_iff rest).2 h.name_read

/-- What is read as an end tag is written as one. -/
theorem read?_eq_some_iff :
    read? c = some (tag, last) ↔
      ∃ name trailing, Written name trailing ∧ c.Takes (chars name trailing) last ∧
        tag = ⟨String.ofList name, ⟨c.offset, last.offset⟩⟩ := by
  constructor
  · intro h
    unfold read? at h
    split at h
    · next cs hcs =>
        split at h
        · cases h
        · next name behind hname =>
            split at h
            · cases h
            · next trailing rest hbreak =>
                cases h
                rcases Text.breakWithin?_eq_some_iff.1 hbreak with ⟨rfl, hnot, hle⟩
                have hcs' : cs = name ++ trailing ++ '>' :: rest := by
                  simpa using (Tag.readName?_eq_some hname).1
                rw [hcs'] at hname
                refine ⟨name, trailing, ⟨(Tag.readName?_append_iff _).1 hname, hnot, hle⟩, ?_, rfl⟩
                exact Cursor.takes_advance (by simp [hcs, hcs', chars])
    · cases h
  · rintro ⟨name, trailing, hwritten, htakes, rfl⟩
    have hrest : c.rest = '<' :: '/' :: (name ++ trailing ++ '>' :: last.rest) := by
      simp [htakes.rest_eq, chars]
    have hbreak : Text.breakWithin? '>' maxTrailingBytes (trailing ++ '>' :: last.rest) =
        some (trailing, last.rest) :=
      Text.breakWithin?_eq_some_iff.2 ⟨rfl, hwritten.not_mem, hwritten.trailing_le⟩
    have hlast : c.advance (chars name trailing) last.rest = last := by
      rw [Cursor.advance, ← htakes.offset_eq]
    unfold read?
    simp only [hrest, hwritten.readName?_eq, hbreak]
    rw [← chars, hlast]

end EndTag

end TemplateMarkup
