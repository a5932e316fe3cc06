import Mathlib.Data.List.TakeWhile
import TemplateMarkup.Proofs.Tag.Extent

/-!
# Start tags as they are written

A start tag ends with its first closing bracket outside of quotes. What has been read up to there
does not depend on anything behind it, nor on the offset, but for the spans, which are counted from
the offset:

* `Attribute.shift`, `StartTag.shift` — the same tag further behind,
* `Tag.Token.next?_stable`, `Tag.readValue?_stable` — tokens and values in front of a closing
  bracket,
* `StartTag.Spelled taken tag` — `taken` is read as a start tag wherever it stands, and `tag` is
  what is read at the very start of a source,
* `StartTag.read?_spelled` — all start tags are read like that.
-/

namespace TemplateMarkup

/-! ## Shifting -/

theorem Span.shift_shift (m n : Nat) (s : Span) : (s.shift m).shift n = s.shift (m + n) := by
  simp [shift, Nat.add_assoc]

/-- The same attribute in a source that has `delta` more bytes in front. -/
def Attribute.shift (delta : Nat) (a : Attribute) : Attribute :=
  { a with span := a.span.shift delta }

theorem Attribute.shift_shift (m n : Nat) (a : Attribute) :
    (a.shift m).shift n = a.shift (m + n) := by
  simp [shift, Span.shift_shift]

/-- The same start tag in a source that has `delta` more bytes in front. -/
def StartTag.shift (delta : Nat) (tag : StartTag) : StartTag :=
  { tag with
    attributes := tag.attributes.map (Attribute.shift delta)
    span := tag.span.shift delta }

theorem StartTag.shift_shift (m n : Nat) (tag : StartTag) :
    (tag.shift m).shift n = tag.shift (m + n) := by
  simp [shift, Span.shift_shift, Attribute.shift_shift]

namespace Tag

open Cursor

variable {c start stop last : Cursor} {token : Token} {cs more rest rest' value : List Char}
  {attributes : List Attribute} {selfClosing : Bool} {room : Nat}

/-! ## Tokens -/

namespace Token

theorem read?_of_isNameChar {d : Char} (hd : isNameChar d) (cs : List Char) :
    read? (d :: cs) = some (name (d :: cs.takeWhile isNameChar), cs.dropWhile isNameChar) := by
  unfold read?
  split
  · next hnil => cases hnil
  · next heq =>
      cases heq
      cases hd
  · next heq =>
      cases heq
      cases hd
  · next heq =>
      cases heq
      cases hd
  · next heq =>
      cases heq
      cases hd
  · next heq =>
      cases heq
      cases hd
  · next heq =>
      cases heq
      rw [if_pos hd]

/-- The first character decides what a token is. -/
theorem read?_cons_cases {d : Char} (h : read? (d :: cs) = some (token, rest)) :
    (isNameChar d ∧ token = name (d :: cs.takeWhile isNameChar)) ∨
    ((d = '"' ∨ d = '\'') ∧ (token, rest) = readQuoted d cs) ∨
    (token = equals ∧ d = '=') ∨ (∃ selfClosing, token = close selfClosing) ∨ token = invalid := by
  unfold read? at h
  split at h
  · cases h
  · next heq =>
      cases heq
      cases h
      exact .inr (.inr (.inl ⟨rfl, rfl⟩))
  · cases h
    exact .inr (.inr (.inr (.inl ⟨false, rfl⟩)))
  · cases h
    exact .inr (.inr (.inr (.inl ⟨true, rfl⟩)))
  · next heq =>
      cases heq
      exact .inr (.inl ⟨.inl rfl, (Option.some.inj h).symm⟩)
  · next heq =>
      cases heq
      exact .inr (.inl ⟨.inr rfl, (Option.some.inj h).symm⟩)
  · next heq =>
      cases heq
      split at h
      · next hd =>
          cases h
          exact .inl ⟨hd, rfl⟩
      · cases h
        exact .inr (.inr (.inr (.inr rfl)))

theorem readQuoted_eq_quoted {d mark : Char} {body : List Char}
    (h : readQuoted d cs = (quoted mark body, rest)) :
    mark = d ∧ Text.breakOn? [d] cs = some (body, rest) := by
  unfold readQuoted at h
  split at h
  · next hbreak =>
      cases h
      exact ⟨rfl, hbreak⟩
  · cases h

theorem read?_eq_name {text : List Char} (h : read? cs = some (name text, rest)) :
    ∃ d ds, text = d :: ds ∧ isNameChar d := by
  cases cs with
  | nil => cases h
  | cons d cs =>
      rcases read?_cons_cases h with ⟨hd, heq⟩ | ⟨_, hquoted⟩ | ⟨heq, _⟩ | ⟨_, heq⟩ | heq
      · cases heq
        exact ⟨d, _, rfl, hd⟩
      · unfold readQuoted at hquoted
        split at hquoted <;> cases hquoted
      · cases heq
      · cases heq
      · cases heq

/-- A quoted value stands between two marks, with none in it. -/
theorem read?_eq_quoted {mark : Char} {body : List Char}
    (h : read? cs = some (quoted mark body, rest)) :
    (mark = '"' ∨ mark = '\'') ∧ mark ∉ body := by
  cases cs with
  | nil => cases h
  | cons d cs =>
      rcases read?_cons_cases h with ⟨_, heq⟩ | ⟨hd, hquoted⟩ | ⟨heq, _⟩ | ⟨_, heq⟩ | heq
      · cases heq
      · rcases readQuoted_eq_quoted hquoted.symm with ⟨rfl, hbreak⟩
        exact ⟨hd, Text.firstAt_singleton.1 (Text.breakOn?_eq_some_iff.1 hbreak).2⟩
      · cases heq
      · cases heq
      · cases heq

theorem read?_quoted {mark : Char} {body : List Char} (hmark : mark = '"' ∨ mark = '\'')
    (hbody : mark ∉ body) (rest : List Char) :
    read? (lexeme (quoted mark body) ++ rest) = some (quoted mark body, rest) := by
  have hbreak : Text.breakOn? [mark] (body ++ [mark] ++ rest) = some (body, rest) :=
    Text.breakOn?_eq_some_iff.2 ⟨rfl, Text.firstAt_singleton.2 hbody⟩
  have hread : read? (mark :: (body ++ [mark] ++ rest)) =
      some (readQuoted mark (body ++ [mark] ++ rest)) := by
    rcases hmark with rfl | rfl <;> rfl
  rw [lexeme, List.cons_append, hread, readQuoted, hbreak]

/-- In front of a closing bracket, a token is read whatever follows the bracket. -/
theorem read?_stable (h : read? (cs ++ '>' :: rest) = some (token, more ++ '>' :: rest))
    (hvalid : token ≠ invalid) (rest' : List Char) :
    read? (cs ++ '>' :: rest') = some (token, more ++ '>' :: rest') := by
  have hsplit : cs = token.lexeme ++ more := by
    have hread := read?_eq_some h
    rw [← List.append_assoc] at hread
    exact List.append_cancel_right hread
  subst hsplit
  cases token with
  | equals => rfl
  | close selfClosing => cases selfClosing <;> rfl
  | invalid => exact absurd rfl hvalid
  | quoted mark body =>
      rcases read?_eq_quoted h with ⟨hmark, hbody⟩
      rw [List.append_assoc]
      exact read?_quoted hmark hbody _
  | name text =>
      -- The name characters end in front of the bracket.
      rcases read?_eq_name h with ⟨d, ds, rfl, hd⟩
      have hstop : isNameChar '>' = false := by decide
      have hcut := takeWhile_append_stop hstop (ds ++ more)
      simp only [lexeme, List.cons_append] at h ⊢
      rw [read?_of_isNameChar hd, (hcut rest).1, (hcut rest).2, Option.some.injEq,
        Prod.mk.injEq] at h
      rw [read?_of_isNameChar hd, (hcut rest').1, (hcut rest').2, h.1,
        List.append_cancel_right h.2]

theorem next?_eq_some (h : next? c = some (start, token, stop)) :
    start.rest = c.rest.dropWhile Text.isTagBlank ∧
      c.Takes (c.rest.takeWhile Text.isTagBlank) start ∧
      read? start.rest = some (token, stop.rest) ∧ start.Takes token.lexeme stop := by
  simp only [next?] at h
  split at h
  · next hread =>
      cases h
      exact ⟨rfl, takes_advance List.takeWhile_append_dropWhile.symm, hread,
        takes_advance (read?_eq_some hread)⟩
  · cases h

theorem next?_of_read? (hread : read? (c.rest.dropWhile Text.isTagBlank) = some (token, rest)) :
    next? c = some
      (c.advance (c.rest.takeWhile Text.isTagBlank) (c.rest.dropWhile Text.isTagBlank), token,
        (c.advance (c.rest.takeWhile Text.isTagBlank) (c.rest.dropWhile Text.isTagBlank)).advance
          token.lexeme rest) := by
  simp only [next?]
  rw [show (c.advance (c.rest.takeWhile Text.isTagBlank)
    (c.rest.dropWhile Text.isTagBlank)).rest = c.rest.dropWhile Text.isTagBlank from rfl, hread]

/-- In front of a closing bracket, the next token is the same wherever it stands. -/
theorem next?_stable (h : next? c = some (start, token, stop)) (hc : c.rest = cs ++ '>' :: rest)
    (hstop : stop.rest = more ++ '>' :: rest) (hvalid : token ≠ invalid) :
    ∃ blanks, cs = blanks ++ (token.lexeme ++ more) ∧ c.Takes blanks start ∧
      start.Takes token.lexeme stop ∧
      ∀ offset rest', next? ⟨offset, cs ++ '>' :: rest'⟩ =
        some (⟨offset + Text.byteLength blanks, token.lexeme ++ more ++ '>' :: rest'⟩, token,
          ⟨offset + Text.byteLength blanks + Text.byteLength token.lexeme,
            more ++ '>' :: rest'⟩) := by
  rcases next?_eq_some h with ⟨hstart, hblanks, hread, hlexeme⟩
  have hbracket : Text.isTagBlank '>' = false := by decide
  have hcut := takeWhile_append_stop hbracket cs
  rw [hc, (hcut rest).2] at hstart
  rw [hc, (hcut rest).1] at hblanks
  rw [hstart, hstop] at hread
  have hdrop : cs.dropWhile Text.isTagBlank = token.lexeme ++ more := by
    have hsplit := read?_eq_some hread
    rw [← List.append_assoc] at hsplit
    exact List.append_cancel_right hsplit
  refine ⟨cs.takeWhile Text.isTagBlank, ?_, hblanks, hlexeme, fun offset rest' => ?_⟩
  · rw [← hdrop, List.takeWhile_append_dropWhile]
  · have hread' := read?_stable hread hvalid rest'
    rw [← (hcut rest').2] at hread'
    rw [next?_of_read? (c := ⟨offset, cs ++ '>' :: rest'⟩) hread']
    simp only [advance, (hcut rest').1, (hcut rest').2, hdrop]

/-- Only an equals sign is read as one. -/
theorem next?_equals_iff :
    (∃ start stop, next? c = some (start, equals, stop)) ↔
      (c.rest.dropWhile Text.isTagBlank).head? = some '=' := by
  constructor
  · rintro ⟨start, stop, h⟩
    rcases next?_eq_some h with ⟨hstart, _, hread, _⟩
    rw [← hstart, read?_eq_some hread]
    rfl
  · intro h
    rcases List.head?_eq_some_iff.1 h with ⟨rest, hrest⟩
    have hread : read? (c.rest.dropWhile Text.isTagBlank) = some (equals, rest) := by
      rw [hrest]
      rfl
    exact ⟨_, _, next?_of_read? hread⟩

/-- A character that is no quote starts no quoted value. -/
theorem read?_not_quoted {d : Char} (hd : d ≠ '"' ∧ d ≠ '\'') (cs : List Char) :
    ∃ token rest, read? (d :: cs) = some (token, rest) ∧ ∀ mark body, token ≠ quoted mark body := by
  have hsome : ∃ token rest, read? (d :: cs) = some (token, rest) := by
    unfold read?
    split
    · next hnil => cases hnil
    all_goals try exact ⟨_, _, rfl⟩
    split <;> exact ⟨_, _, rfl⟩
  rcases hsome with ⟨token, rest, hread⟩
  refine ⟨token, rest, hread, ?_⟩
  rintro mark body rfl
  rcases read?_eq_quoted hread with ⟨hmark, _⟩
  have heq : d = mark := by
    have hsplit := read?_eq_some hread
    rw [lexeme, List.cons_append] at hsplit
    exact (List.cons.inj hsplit).1
  rcases hmark with rfl | rfl
  · exact hd.1 heq
  · exact hd.2 heq

end Token

/-! ## Values in front of a closing bracket -/

theorem readValue?_of_not_equals (h : (c.rest.dropWhile Text.isTagBlank).head? ≠ some '=') :
    readValue? c = some ([], c) := by
  unfold readValue?
  split
  · next start stop hnext => exact absurd (Token.next?_equals_iff.1 ⟨start, stop, hnext⟩) h
  · rfl

/-- Without quotes, a value ends in front of the bracket. -/
theorem unquoted_stable {raw : List Char} {d : Char}
    (h : (d :: raw ++ more ++ '>' :: rest).takeWhile isUnquotedChar = d :: raw) :
    isUnquotedChar d ∧ ∀ rest',
      (d :: raw ++ more ++ '>' :: rest').takeWhile isUnquotedChar = d :: raw ∧
      (d :: raw ++ more ++ '>' :: rest').dropWhile isUnquotedChar = more ++ '>' :: rest' := by
  have hbracket : isUnquotedChar '>' = false := by decide
  have hcut := takeWhile_append_stop hbracket (d :: raw ++ more)
  have hraw : (d :: raw ++ more).takeWhile isUnquotedChar = d :: raw := by
    rw [← (hcut rest).1]
    exact h
  have hmore : (d :: raw ++ more).dropWhile isUnquotedChar = more := by
    have hsplit := List.takeWhile_append_dropWhile (p := isUnquotedChar) (l := d :: raw ++ more)
    rw [hraw] at hsplit
    exact List.append_cancel_left hsplit
  refine ⟨?_, fun rest' => ?_⟩
  · have hmem : d ∈ (d :: raw ++ more).takeWhile isUnquotedChar := by
      rw [hraw]
      exact List.mem_cons_self
    exact List.mem_takeWhile_imp hmem
  · rw [(hcut rest').1, (hcut rest').2, hraw, hmore]
    exact ⟨rfl, rfl⟩

theorem readAssigned?_cases (h : readAssigned? start token stop = some (value, last)) :
    (∃ mark body, token = .quoted mark body ∧ value = Reference.decodeAttribute body ∧
      last = stop) ∨
    ∃ d raw, start.rest.takeWhile isUnquotedChar = d :: raw ∧
      value = Reference.decodeAttribute (d :: raw) ∧
      last = start.advance (d :: raw) (start.rest.dropWhile isUnquotedChar) := by
  unfold readAssigned? at h
  split at h
  · next mark body =>
      cases h
      exact .inl ⟨mark, body, rfl, rfl, rfl⟩
  · split at h
    · cases h
    · next hne =>
        cases h
        rcases List.exists_cons_of_ne_nil hne with ⟨d, raw, hraw⟩
        rw [hraw]
        exact .inr ⟨d, raw, rfl, rfl, rfl⟩

theorem readAssigned?_of_not_quoted {d : Char} {raw : List Char}
    (htoken : ∀ mark body, token ≠ .quoted mark body)
    (hraw : start.rest.takeWhile isUnquotedChar = d :: raw) :
    readAssigned? start token stop =
      some (Reference.decodeAttribute (d :: raw),
        start.advance (d :: raw) (start.rest.dropWhile isUnquotedChar)) := by
  cases token with
  | quoted mark body => exact absurd rfl (htoken mark body)
  | name text => simp only [readAssigned?, hraw]
  | equals => simp only [readAssigned?, hraw]
  | close selfClosing => simp only [readAssigned?, hraw]
  | invalid => simp only [readAssigned?, hraw]

/-- In front of a closing bracket, the value behind an equals sign is the same wherever it
stands. -/
theorem readAssigned?_stable (hnext : Token.next? c = some (start, token, stop))
    (h : readAssigned? start token stop = some (value, last))
    (hc : c.rest = cs ++ '>' :: rest) (hlast : last.rest = more ++ '>' :: rest) :
    ∃ taken, cs = taken ++ more ∧
      ∀ offset rest', ∃ start' token' stop',
        Token.next? ⟨offset, cs ++ '>' :: rest'⟩ = some (start', token', stop') ∧
        readAssigned? start' token' stop' =
          some (value, ⟨offset + Text.byteLength taken, more ++ '>' :: rest'⟩) := by
  rcases readAssigned?_cases h with ⟨mark, body, rfl, rfl, rfl⟩ | ⟨d, raw, hraw, rfl, rfl⟩
  · rcases Token.next?_stable hnext hc hlast (by simp) with ⟨blanks, hcs, _, _, hstable⟩
    refine ⟨blanks ++ (Token.quoted mark body).lexeme, by rw [hcs, List.append_assoc], ?_⟩
    intro offset rest'
    refine ⟨_, _, _, hstable offset rest', ?_⟩
    rw [Text.byteLength_append, ← Nat.add_assoc]
    rfl
  · rcases Token.next?_eq_some hnext with ⟨hstart, _, _, _⟩
    have hbracket : Text.isTagBlank '>' = false := by decide
    have hcut := takeWhile_append_stop hbracket cs
    rw [hc, (hcut rest).2] at hstart
    -- Behind the blanks, the value and what follows it make up the rest of the text.
    have hdrop : cs.dropWhile Text.isTagBlank = d :: raw ++ more := by
      have hsplit := List.takeWhile_append_dropWhile (p := isUnquotedChar) (l := start.rest)
      have hmore : start.rest.dropWhile isUnquotedChar = more ++ '>' :: rest := hlast
      rw [hraw, hmore, hstart, ← List.append_assoc] at hsplit
      exact (List.append_cancel_right hsplit).symm
    rw [hstart, hdrop] at hraw
    rcases unquoted_stable hraw with ⟨hd, hstable⟩
    have hquotes : d ≠ '"' ∧ d ≠ '\'' := by
      constructor
      · rintro rfl
        exact absurd hd (by decide)
      · rintro rfl
        exact absurd hd (by decide)
    refine ⟨cs.takeWhile Text.isTagBlank ++ d :: raw, ?_, ?_⟩
    · rw [List.append_assoc, ← hdrop, List.takeWhile_append_dropWhile]
    · intro offset rest'
      rcases Token.read?_not_quoted hquotes (raw ++ more ++ '>' :: rest') with
        ⟨token', rest'', hread, htoken⟩
      have hstart' : ((cs ++ '>' :: rest').dropWhile Text.isTagBlank) =
          d :: raw ++ more ++ '>' :: rest' := by
        rw [(hcut rest').2, hdrop]
      have hread' : Token.read? ((cs ++ '>' :: rest').dropWhile Text.isTagBlank) =
          some (token', rest'') := by
        rw [hstart']
        exact hread
      refine ⟨_, _, _, Token.next?_of_read? (c := ⟨offset, cs ++ '>' :: rest'⟩) hread', ?_⟩
      have hraw' : ((cs ++ '>' :: rest').dropWhile Text.isTagBlank).takeWhile isUnquotedChar =
          d :: raw := by
        rw [hstart']
        exact (hstable rest').1
      rw [readAssigned?_of_not_quoted htoken hraw']
      simp only [advance, hstart', (hstable rest').2, (hcut rest').1]
      rw [Text.byteLength_append, Nat.add_assoc]

/-- In front of a closing bracket, a value is the same wherever it stands. -/
theorem readValue?_stable (h : readValue? c = some (value, stop)) (hc : c.rest = cs ++ '>' :: rest)
    (hstop : stop.rest = more ++ '>' :: rest) :
    ∃ taken, cs = taken ++ more ∧
      ∀ offset rest', readValue? ⟨offset, cs ++ '>' :: rest'⟩ =
        some (value, ⟨offset + Text.byteLength taken, more ++ '>' :: rest'⟩) := by
  by_cases hequals : (c.rest.dropWhile Text.isTagBlank).head? = some '='
  · rcases Token.next?_equals_iff.2 hequals with ⟨start, afterEquals, hnext⟩
    simp only [readValue?, hnext] at h
    split at h
    · next start' token stop' hnext' =>
        -- What follows the equals sign ends in front of the bracket as well.
        rcases Token.next?_takes hnext' with ⟨⟨blanks, hblanks⟩, htoken⟩
        rcases readAssigned?_takes htoken h with ⟨assigned, hassigned⟩
        have hafter : afterEquals.rest = (blanks ++ assigned ++ more) ++ '>' :: rest := by
          rw [(hblanks.trans hassigned).rest_eq, hstop, List.append_assoc, List.append_assoc,
            List.append_assoc]
        rcases Token.next?_stable hnext hc hafter (by simp) with ⟨before, hcs, _, _, hstable⟩
        rcases readAssigned?_stable hnext' h hafter hstop with ⟨taken, hmore, hvalue⟩
        refine ⟨before ++ '=' :: taken, ?_, fun offset rest' => ?_⟩
        · rw [hcs, hmore]
          simp [Token.lexeme]
        · rcases hvalue (offset + Text.byteLength before + Text.byteLength Token.equals.lexeme)
            rest' with ⟨start'', token'', stop'', hnext'', hread⟩
          simp only [readValue?, hstable offset rest', hnext'']
          rw [hread]
          simp [Token.lexeme, Nat.add_assoc]
    · cases h
  · -- Without an equals sign the value is empty, and nothing is taken.
    rw [readValue?_of_not_equals hequals, Option.some.injEq, Prod.mk.injEq] at h
    rcases h with ⟨rfl, rfl⟩
    have hmore : cs = more := List.append_cancel_right (hc.symm.trans hstop)
    subst hmore
    refine ⟨[], rfl, fun offset rest' => ?_⟩
    have hbracket : Text.isTagBlank '>' = false := by decide
    have hcut := takeWhile_append_stop hbracket cs
    rw [hc, (hcut rest).2] at hequals
    have hequals' : ((cs ++ '>' :: rest').dropWhile Text.isTagBlank).head? ≠ some '=' := by
      rw [(hcut rest').2]
      intro heq
      apply hequals
      cases hdrop : cs.dropWhile Text.isTagBlank with
      | nil => simp [hdrop] at heq
      | cons d ds =>
          rw [hdrop] at heq
          exact heq
    exact readValue?_of_not_equals (c := ⟨offset, cs ++ '>' :: rest'⟩) hequals'

/-! ## Attributes -/

/-- The closing bracket, behind blanks and perhaps a slash, is the same wherever it stands. -/
theorem Token.next?_close_spelled (h : next? c = some (start, close selfClosing, last)) :
    ∃ front, c.Takes (front ++ ['>']) last ∧
      ∀ offset rest, ∃ start', next? ⟨offset, front ++ '>' :: rest⟩ =
        some (start', close selfClosing, ⟨offset + Text.byteLength (front ++ ['>']), rest⟩) := by
  have hlexeme : ∃ d slash, (close selfClosing).lexeme = slash ++ ['>'] ∧
      Text.isTagBlank d = false ∧
      ∀ rest, slash ++ '>' :: rest = d :: (slash ++ '>' :: rest).tail ∧
        read? (slash ++ '>' :: rest) = some (close selfClosing, rest) := by
    cases selfClosing with
    | false => exact ⟨'>', [], rfl, by decide, fun rest => ⟨rfl, rfl⟩⟩
    | true => exact ⟨'/', ['/'], rfl, by decide, fun rest => ⟨rfl, rfl⟩⟩
  rcases hlexeme with ⟨d, slash, hlexeme, hd, hread⟩
  rcases next?_takes h with ⟨⟨_, _⟩, htakes⟩
  rcases next?_eq_some h with ⟨hstart, hblanks, _, _⟩
  generalize hfront : c.rest.takeWhile Text.isTagBlank = blanks at hblanks
  rw [hlexeme] at htakes
  have htaken := hblanks.trans htakes
  rw [← List.append_assoc] at htaken
  refine ⟨blanks ++ slash, htaken, fun offset rest => ?_⟩
  -- The blanks end in front of the slash or the bracket.
  have hcut := takeWhile_append_stop hd blanks
  have hall : blanks.takeWhile Text.isTagBlank = blanks := by
    have hrest : c.rest = blanks ++ d :: (slash ++ '>' :: last.rest).tail := by
      rw [← (hread last.rest).1, htaken.rest_eq]
      simp
    rw [← (hcut (slash ++ '>' :: last.rest).tail).1, ← hrest, hfront]
  have hnone : blanks.dropWhile Text.isTagBlank = [] := by
    have hsplit := List.takeWhile_append_dropWhile (p := Text.isTagBlank) (l := blanks)
    rw [hall] at hsplit
    exact List.append_right_eq_self.1 hsplit
  have hdrop : (blanks ++ slash ++ '>' :: rest).dropWhile Text.isTagBlank =
      slash ++ '>' :: rest := by
    rw [List.append_assoc, (hread rest).1, (hcut _).2, hnone, List.nil_append]
  have htake : (blanks ++ slash ++ '>' :: rest).takeWhile Text.isTagBlank = blanks := by
    rw [List.append_assoc, (hread rest).1, (hcut _).1, hall]
  have hread' : read? ((blanks ++ slash ++ '>' :: rest).dropWhile Text.isTagBlank) =
      some (close selfClosing, rest) := by
    rw [hdrop]
    exact (hread rest).2
  refine ⟨⟨offset + Text.byteLength blanks, slash ++ '>' :: rest⟩, ?_⟩
  rw [next?_of_read? (c := ⟨offset, blanks ++ slash ++ '>' :: rest⟩) hread']
  simp only [advance, htake, hdrop, hlexeme, Text.byteLength_append, Nat.add_assoc]

/-- `front` and a closing bracket are read as attributes wherever they stand; `written` are the
attributes that are read at the very start of a source. -/
def Spelled (room : Nat) (selfClosing : Bool) (front : List Char) (written : List Attribute) :
    Prop :=
  ∀ offset rest, readAttributes? room ⟨offset, front ++ '>' :: rest⟩ =
    some (written.map (Attribute.shift offset), selfClosing,
      ⟨offset + Text.byteLength (front ++ ['>']), rest⟩)

theorem spelled_close (h : Token.next? c = some (start, .close selfClosing, last)) (room : Nat) :
    ∃ front, c.Takes (front ++ ['>']) last ∧ Spelled room selfClosing front [] := by
  rcases Token.next?_close_spelled h with ⟨front, htakes, hspelled⟩
  refine ⟨front, htakes, fun offset rest => ?_⟩
  rcases hspelled offset rest with ⟨start', hnext⟩
  unfold readAttributes?
  rw [hnext]
  rfl

/-- The attribute that is read behind `blanks`, where `name` and `assigned` are its text. -/
def writtenAt (blanks name assigned value : List Char) : Attribute :=
  { name := String.ofList name
    value := String.ofList value
    span := ⟨Text.byteLength blanks,
      Text.byteLength blanks + Text.byteLength name + Text.byteLength assigned⟩ }

/-- One more attribute in front. -/
theorem spelled_cons {text front : List Char} {written : List Attribute} {afterName : Cursor}
    (hnext : Token.next? c = some (start, .name text, afterName))
    (hbytes : Text.byteLength text ≤ maxNameBytes)
    (hvalue : readValue? afterName = some (value, stop)) (hlast : stop.Takes (front ++ ['>']) last)
    (hspelled : Spelled room selfClosing front written) :
    ∃ blanks assigned, c.Takes blanks start ∧ start.Takes text afterName ∧
      afterName.Takes assigned stop ∧
      Spelled (room + 1) selfClosing (blanks ++ (text ++ (assigned ++ front)))
        (writtenAt blanks text assigned value ::
          written.map (Attribute.shift (Text.byteLength (blanks ++ (text ++ assigned))))) := by
  have hstop : stop.rest = front ++ '>' :: last.rest := by
    rw [hlast.rest_eq, List.append_assoc]
    rfl
  rcases readValue?_takes hvalue with ⟨assigned, hassigned⟩
  have hafter : afterName.rest = (assigned ++ front) ++ '>' :: last.rest := by
    rw [hassigned.rest_eq, hstop, List.append_assoc]
  rcases Token.next?_takes hnext with ⟨⟨blanks', hblanks'⟩, hname⟩
  have hc : c.rest = (blanks' ++ text ++ (assigned ++ front)) ++ '>' :: last.rest := by
    rw [(hblanks'.trans hname).rest_eq, hafter, Token.lexeme]
    simp
  rcases Token.next?_stable hnext hc hafter (by simp) with ⟨blanks, hcs, hblanks, _, hnext'⟩
  rcases readValue?_stable hvalue hafter hstop with ⟨taken, htaken, hvalue'⟩
  have hsame : assigned = taken := List.append_cancel_right htaken
  subst hsame
  refine ⟨blanks, assigned, hblanks, hname, hassigned, fun offset rest => ?_⟩
  have hnot : ¬maxNameBytes < Text.byteLength text := Nat.not_lt_of_le hbytes
  simp only [hcs, Token.lexeme] at hnext'
  -- Behind the attribute, the offset has grown by the bytes of its text.
  have hoffset : offset + Text.byteLength blanks + Text.byteLength text +
      Text.byteLength assigned = Text.byteLength (blanks ++ (text ++ assigned)) + offset := by
    simp only [Text.byteLength_append]
    omega
  have hshift : written.map (Attribute.shift
      (Text.byteLength (blanks ++ (text ++ assigned)) + offset)) =
      (written.map (Attribute.shift (Text.byteLength (blanks ++ (text ++ assigned))))).map
        (Attribute.shift offset) := by
    rw [List.map_map]
    refine List.map_congr_left fun a _ => ?_
    exact (Attribute.shift_shift _ _ a).symm
  rw [readAttributes?, hnext' offset rest]
  simp only [if_neg hnot, hvalue', hspelled _ rest, hoffset, hshift, List.map_cons]
  refine congrArg some (Prod.ext ?_ (Prod.ext rfl ?_))
  · refine congrArg (· :: _) ?_
    simp only [writtenAt, Attribute.shift, Span.shift, Text.byteLength_append, Attribute.mk.injEq,
      Span.mk.injEq, true_and]
    omega
  · simp only [Text.byteLength_append, Cursor.mk.injEq, and_true]
    omega

/-- Attributes and the closing bracket are the same wherever they stand, but for their spans. -/
theorem readAttributes?_spelled
    (h : readAttributes? room c = some (attributes, selfClosing, last)) :
    ∃ front written, c.Takes (front ++ ['>']) last ∧
      attributes = written.map (Attribute.shift c.offset) ∧
      Spelled room selfClosing front written := by
  induction room generalizing c attributes with
  | zero =>
      rcases readAttributes?_cases h with ⟨start, hnext, rfl⟩ | ⟨_, _, _, _, _, _, _, hroom, _⟩
      · rcases spelled_close hnext 0 with ⟨front, htakes, hspelled⟩
        exact ⟨front, [], htakes, rfl, hspelled⟩
      · cases hroom
  | succ room ih =>
      rcases readAttributes?_cases h with
        ⟨start, hnext, rfl⟩ |
        ⟨start, text, afterName, value, stop, _, more, hroom, hnext, hbytes, hvalue, hmore, rfl⟩
      · rcases spelled_close hnext (room + 1) with ⟨front, htakes, hspelled⟩
        exact ⟨front, [], htakes, rfl, hspelled⟩
      · cases hroom
        rcases ih hmore with ⟨front, written, hlast, rfl, hspelled⟩
        rcases spelled_cons hnext hbytes hvalue hlast hspelled with
          ⟨blanks, assigned, hblanks, hname, hassigned, hcons⟩
        refine ⟨_, _, ?_, ?_, hcons⟩
        · have htakes := ((hblanks.trans hname).trans hassigned).trans hlast
          simpa using htakes
        · have hstart := hblanks.offset_eq
          have hstop : stop.offset =
              Text.byteLength (blanks ++ (text ++ assigned)) + c.offset := by
            rw [((hblanks.trans hname).trans hassigned).offset_eq]
            simp only [Text.byteLength_append]
            omega
          rw [List.map_cons, List.map_map, hstop]
          refine congrArg₂ List.cons ?_ (List.map_congr_left fun a _ => ?_)
          · simp only [writtenAt, Attribute.shift, Span.shift, hstart, Text.byteLength_append,
              Attribute.mk.injEq, Span.mk.injEq, true_and]
            omega
          · exact (Attribute.shift_shift _ _ a).symm

end Tag

/-! ## Start tags -/

namespace StartTag

open Cursor

variable {c last : Cursor} {tag : StartTag} {taken : List Char}

/-- `taken` is read as a start tag wherever it stands; `tag` is what is read at the very start of a
source. -/
def Spelled (taken : List Char) (tag : StartTag) : Prop :=
  ∀ offset rest, read? ⟨offset, taken ++ rest⟩ =
    some (tag.shift offset, ⟨offset + Text.byteLength taken, rest⟩)

/-- A start tag is the same wherever it stands, but for its spans. -/
theorem read?_spelled (h : read? c = some (tag, last)) :
    ∃ taken written, c.Takes taken last ∧ tag = written.shift c.offset ∧
      Spelled taken written := by
  rcases read?_eq_some h with ⟨cs, name, rest, hcs, hname, htag, hspan, hattributes⟩
  rcases Tag.readAttributes?_spelled hattributes with
    ⟨front, written, htakes, hwritten, hspelled⟩
  have hsplit := (Tag.readName?_eq_some hname).1
  have hrest : rest = front ++ '>' :: last.rest := by
    have hbehind : rest = front ++ ['>'] ++ last.rest := htakes.rest_eq
    rw [hbehind, List.append_assoc]
    rfl
  have hlead : c.Takes ('<' :: name) (c.advance ('<' :: name) rest) :=
    takes_advance (by rw [hcs, hsplit, List.cons_append])
  have htaken := hlead.trans htakes
  refine ⟨_, ⟨String.ofList name, written.map (Attribute.shift (Text.byteLength ('<' :: name))),
    tag.selfClosing, ⟨0, Text.byteLength ('<' :: name ++ (front ++ ['>']))⟩⟩, htaken, ?_, ?_⟩
  · have hattributes' : tag.attributes =
        (written.map (Attribute.shift (Text.byteLength ('<' :: name)))).map
          (Attribute.shift c.offset) := by
      rw [hwritten, List.map_map]
      refine List.map_congr_left fun a _ => ?_
      rw [Function.comp_apply, Attribute.shift_shift, Nat.add_comm]
      rfl
    have hspan' : tag.span =
        Span.shift c.offset ⟨0, Text.byteLength ('<' :: name ++ (front ++ ['>']))⟩ := by
      rw [hspan, htaken.offset_eq, Span.shift, Nat.zero_add, Nat.add_comm]
    calc
      tag = ⟨tag.name, tag.attributes, tag.selfClosing, tag.span⟩ := rfl
      _ = _ := by rw [htag, hattributes', hspan']; rfl
  · intro offset rest'
    -- The name ends in front of the bracket, whatever follows.
    have hname' : Tag.readName? (name ++ front ++ '>' :: rest') =
        some (name, front ++ '>' :: rest') := by
      rw [hsplit, hrest, ← List.append_assoc] at hname
      exact (Tag.readName?_append_iff rest').2 hname
    have htext : '<' :: name ++ (front ++ ['>']) ++ rest' =
        '<' :: (name ++ front ++ '>' :: rest') := by
      simp
    simp only [read?, htext, hname', advance]
    rw [hspelled]
    refine congrArg some (Prod.ext ?_ ?_)
    · simp only [shift, Span.shift, List.map_map, StartTag.mk.injEq, true_and, Span.mk.injEq,
        Nat.zero_add, Text.byteLength_append]
      refine ⟨List.map_congr_left fun a _ => ?_, by omega⟩
      rw [Function.comp_apply, Attribute.shift_shift, Nat.add_comm]
    · simp only [Text.byteLength_append, Cursor.mk.injEq, and_true]
      omega

end StartTag
end TemplateMarkup
