import Mathlib.Data.List.Basic
import TemplateMarkup.Check.Report
import TemplateMarkup.Proofs.Text.Offsets

/-!
# Lines and columns are exact

A line index counts line feeds and a report splits its text into lines. Both go through a text line
by line (`Text.by_lines`), so they can be compared where each line ends. This file defines:

* `LineCol.Locates cs offset p` — the line and the column `p` of an offset, said from the bytes of
  `cs` alone,
* `LineCol.Before` — the order of lines and columns,
* `Text.Line cs` — a line of `cs`: what it reads, what ends it, and what stands around it,
* `LineCol.InLine`, `LineCol.BehindLast` — where a position lies among the lines of a text.

`LineIndex.lineCol?_exact` puts together that the index locates offsets, that it keeps their order,
and that a report in the human format quotes the line in which a warning starts.
-/

namespace TemplateMarkup

open Text

variable {part rest cs : List Char} {offset : Nat} {p q : LineCol}

namespace Text

/-! ## Texts line by line -/

/-- What holds of a last line, and is kept when a line is put in front, holds of every text. -/
@[elab_as_elim]
theorem by_lines {P : List Char → Prop} (last : ∀ part, '\n' ∉ part → P part)
    (line : ∀ part rest, '\n' ∉ part → P rest → P (part ++ '\n' :: rest)) (cs : List Char) :
    P cs := by
  induction hn : cs.length using Nat.strongRecOn generalizing cs with
  | ind n ih =>
      by_cases hmem : '\n' ∈ cs
      · rcases List.eq_append_cons_of_mem hmem with ⟨part, rest, rfl, hpart⟩
        have hlt : rest.length < n := by
          rw [← hn, List.length_append, List.length_cons]
          omega
        exact line part rest hpart (ih rest.length hlt rest rfl)
      · exact last cs hmem

/-- What a line reads: a return in front of its line feed does not belong to it. -/
def withoutReturn (part : List Char) : List Char :=
  if part.getLast? = some '\r' then part.dropLast else part

theorem lines_of_not_mem (h : '\n' ∉ cs) (hne : cs ≠ []) : lines cs = [cs] := by
  rcases List.exists_cons_of_ne_nil hne with ⟨c, tail, rfl⟩
  simp [lines, splitAll_of_not_mem h]

theorem splitAll_ne_nil (mark : Char) (cs : List Char) : splitAll mark cs ≠ [] := by
  by_cases hmem : mark ∈ cs
  · rcases List.eq_append_cons_of_mem hmem with ⟨before, rest, rfl, hbefore⟩
    simp [splitAll_append hbefore]
  · simp [splitAll_of_not_mem hmem]

theorem lines_append (h : '\n' ∉ part) (rest : List Char) :
    lines (part ++ '\n' :: rest) = withoutReturn part :: lines rest := by
  rcases List.exists_cons_of_ne_nil (splitAll_ne_nil '\n' rest) with ⟨first, parts, hrest⟩
  simp only [lines, splitAll_append h, hrest, List.dropLast_cons_cons, List.map_cons,
    List.getLast?_cons_cons]
  split
  · rfl
  · rfl

/-- A line of a text. A return in front of a line feed ends the line together with it, and the last
line need not be ended. -/
structure Line (cs : List Char) where
  front : List Char
  content : List Char
  ending : List Char
  back : List Char
  chars_eq : front ++ content ++ ending ++ back = cs
  starts : front = [] ∨ front.getLast? = some '\n'
  unbroken : '\n' ∉ content
  ends : ending = ['\n'] ∧ content.getLast? ≠ some '\r' ∨ ending = ['\r', '\n'] ∨
    ending = [] ∧ back = [] ∧ content ≠ []

namespace Line

/-- The line up to its line feed, with a return if there is one. -/
def full (l : Line cs) : List Char :=
  l.content ++ l.ending.dropLast

/-- A text without a line feed is one line. -/
def whole (h : '\n' ∉ cs) (hne : cs ≠ []) : Line cs where
  front := []
  content := cs
  ending := []
  back := []
  chars_eq := by simp
  starts := .inl rfl
  unbroken := h
  ends := .inr (.inr ⟨rfl, rfl, hne⟩)

/-- The first line of a text with a line feed. -/
def first (h : '\n' ∉ part) (rest : List Char) : Line (part ++ '\n' :: rest) where
  front := []
  content := withoutReturn part
  ending := if part.getLast? = some '\r' then ['\r', '\n'] else ['\n']
  back := rest
  chars_eq := by
    unfold withoutReturn
    split
    · next hreturn =>
        rcases List.getLast?_eq_some_iff.1 hreturn with ⟨before, rfl⟩
        simp
    · simp
  starts := .inl rfl
  unbroken := by
    unfold withoutReturn
    split
    · exact fun hmem => h ((List.dropLast_sublist part).subset hmem)
    · exact h
  ends := by
    unfold withoutReturn
    split
    · exact .inr (.inl rfl)
    · next hreturn => exact .inl ⟨rfl, hreturn⟩

theorem full_first (h : '\n' ∉ part) (rest : List Char) : (first h rest).full = part := by
  unfold full first withoutReturn
  dsimp only
  split
  · next hreturn =>
      rcases List.getLast?_eq_some_iff.1 hreturn with ⟨before, rfl⟩
      simp
  · simp

/-- A line of the rest, behind one more line. -/
def behind (part : List Char) (l : Line rest) : Line (part ++ '\n' :: rest) where
  front := part ++ '\n' :: l.front
  content := l.content
  ending := l.ending
  back := l.back
  chars_eq := by simp [← l.chars_eq]
  starts := by
    refine .inr ?_
    rcases l.starts with hnil | hlast
    · rw [hnil, List.getLast?_concat]
    · rw [List.getLast?_append_of_ne_nil _ (List.cons_ne_nil _ _), List.getLast?_cons, hlast]
      rfl
  unbroken := l.unbroken
  ends := l.ends

end Line
end Text

/-! ## Places in the bytes of a text -/

namespace LineCol

/-- The line of an offset is the number of line feeds in front of it. Its column is the number of
bytes since the line has started, at the start of the text or behind a line feed. -/
structure Locates (cs : List Char) (offset : Nat) (p : LineCol) : Prop where
  line_eq : p.line = ((bytes cs).take offset).count (byte '\n')
  col_le : p.col ≤ offset
  start : p.col = offset ∨ (bytes cs)[offset - p.col - 1]? = some (byte '\n')
  unbroken : byte '\n' ∉ ((bytes cs).take offset).drop (offset - p.col)

/-- The position in front, line by line and in a line by columns. -/
def Before (p q : LineCol) : Prop :=
  p.line < q.line ∨ p.line = q.line ∧ p.col < q.col

/-- The line of an offset cannot start at two places. -/
theorem Locates.col_le_col (hp : p.Locates cs offset) (hq : q.Locates cs offset) :
    q.col ≤ p.col := by
  refine Nat.le_of_not_lt fun hlt => ?_
  have hqle := hq.col_le
  rcases hp.start with hstart | hfeed
  · omega
  · -- The line feed in front of the one line would stand in the other.
    refine hq.unbroken ?_
    rw [List.mem_iff_getElem?]
    refine ⟨q.col - p.col - 1, ?_⟩
    have hindex : offset - q.col + (q.col - p.col - 1) = offset - p.col - 1 := by omega
    have hinside : offset - p.col - 1 < offset := by omega
    rw [List.getElem?_drop, hindex, List.getElem?_take_of_lt hinside, hfeed]

theorem Locates.unique (hp : p.Locates cs offset) (hq : q.Locates cs offset) : p = q := by
  have hline : p.line = q.line := hp.line_eq.trans hq.line_eq.symm
  have hcol : p.col = q.col := Nat.le_antisymm (hq.col_le_col hp) (hp.col_le_col hq)
  cases p
  cases q
  simp only at hline hcol
  rw [hline, hcol]

/-- In the first line, columns are offsets. -/
theorem locates_first (h : '\n' ∉ part) (hle : offset ≤ byteLength part) (rest : List Char) :
    (⟨0, offset⟩ : LineCol).Locates (part ++ rest) offset := by
  have htake : (bytes (part ++ rest)).take offset = (bytes part).take offset := by
    rw [bytes_append, List.take_append_of_le_length (by rwa [length_bytes])]
  have hnot : byte '\n' ∉ (bytes part).take offset :=
    fun hmem => byte_not_mem_bytes (by decide) h (List.mem_of_mem_take hmem)
  refine ⟨?_, Nat.le_refl _, .inl rfl, ?_⟩
  · rw [htake, List.count_eq_zero.2 hnot]
  · rw [htake]
    exact fun hmem => hnot (List.mem_of_mem_drop hmem)

/-- One more line in front: the line is one more, and the column stays. -/
theorem Locates.behind (hp : p.Locates rest offset) (h : '\n' ∉ part) :
    (⟨p.line + 1, p.col⟩ : LineCol).Locates (part ++ '\n' :: rest)
      (byteLength part + 1 + offset) := by
  have hbytes : bytes (part ++ '\n' :: rest) = bytes part ++ byte '\n' :: bytes rest :=
    bytes_append_mark (by decide) part rest
  have htake : (bytes (part ++ '\n' :: rest)).take (byteLength part + 1 + offset) =
      bytes part ++ byte '\n' :: (bytes rest).take offset := by
    rw [hbytes, ← length_bytes, Nat.add_assoc, List.take_length_add_append, Nat.add_comm 1,
      List.take_succ_cons]
  have hnot : byte '\n' ∉ bytes part := byte_not_mem_bytes (by decide) h
  have hcol := hp.col_le
  refine ⟨?_, Nat.le_add_left_of_le hcol, .inr ?_, ?_⟩
  · rw [htake, List.count_append, List.count_eq_zero.2 hnot, List.count_cons_self, ← hp.line_eq,
      Nat.zero_add]
  · rw [hbytes, ← length_bytes]
    dsimp only
    by_cases hstart : p.col = offset
    · -- The line starts behind the line feed that has been put in front.
      have hindex : (bytes part).length + 1 + offset - p.col - 1 = (bytes part).length := by omega
      rw [hindex, List.getElem?_append_right (Nat.le_refl _), Nat.sub_self, List.getElem?_cons_zero]
    · have hfeed := hp.start.resolve_left hstart
      have hright : (bytes part).length ≤ (bytes part).length + 1 + offset - p.col - 1 := by omega
      have hindex : (bytes part).length + 1 + offset - p.col - 1 - (bytes part).length =
          offset - p.col - 1 + 1 := by omega
      rw [List.getElem?_append_right hright, hindex, List.getElem?_cons_succ, hfeed]
  · have hdrop : byteLength part + 1 + offset - p.col =
        (bytes part).length + (offset - p.col + 1) := by
      rw [length_bytes]
      omega
    rw [htake, hdrop, List.drop_length_add_append, List.drop_succ_cons]
    exact hp.unbroken

end LineCol

/-! ## The index line by line -/

namespace LineIndex

/-- The line feeds found so far stay, and the offsets of the others count from `offset`. -/
theorem newlinesOnto_eq (found : List Nat) (offset : Nat) (cs : List Char) :
    newlinesOnto found offset cs =
      found.reverse ++ (newlinesOnto [] 0 cs).map (offset + ·) := by
  induction cs generalizing found offset with
  | nil => simp [newlinesOnto]
  | cons c cs ih =>
      rw [newlinesOnto, newlinesOnto, ih, ih _ (0 + c.utf8Size)]
      by_cases hc : c = '\n'
      · simp [hc, Nat.add_assoc, Function.comp_def]
      · simp [hc, Nat.add_assoc, Function.comp_def]

theorem newlinesOnto_append (h : '\n' ∉ part) (found : List Nat) (offset : Nat)
    (rest : List Char) :
    newlinesOnto found offset (part ++ rest) =
      newlinesOnto found (offset + byteLength part) rest := by
  induction part generalizing offset with
  | nil => simp
  | cons c part ih =>
      rw [List.mem_cons, not_or] at h
      rw [List.cons_append, newlinesOnto, if_neg (Ne.symm h.1), ih h.2, byteLength_cons,
        Nat.add_assoc]

theorem ofText_of_not_mem (h : '\n' ∉ cs) :
    ofText (String.ofList cs) = { newlines := [], size := byteLength cs } := by
  have hnewlines := newlinesOnto_append h [] 0 []
  rw [List.append_nil] at hnewlines
  simp only [ofText, String.toList_ofList, hnewlines, newlinesOnto, List.reverse_nil]

theorem ofText_append (h : '\n' ∉ part) (rest : List Char) :
    ofText (String.ofList (part ++ '\n' :: rest)) =
      { newlines := byteLength part ::
          (ofText (String.ofList rest)).newlines.map (byteLength part + 1 + ·)
        size := byteLength part + 1 + (ofText (String.ofList rest)).size } := by
  have hsize : '\n'.utf8Size = 1 := rfl
  simp only [ofText, String.toList_ofList, newlinesOnto_append h, newlinesOnto, if_true,
    newlinesOnto_eq [0 + byteLength part], byteLength_append, byteLength_cons, hsize]
  simp [Nat.add_assoc]

theorem lineCol?_of_not_mem (h : '\n' ∉ cs) (offset : Nat) :
    (ofText (String.ofList cs)).lineCol? offset =
      if offset ≤ byteLength cs then some ⟨0, offset⟩ else none := by
  rw [ofText_of_not_mem h]
  by_cases hle : offset ≤ byteLength cs
  · simp [lineCol?, hle, Nat.not_lt.2 hle]
  · simp [lineCol?, hle, Nat.not_le.1 hle]

/-- In the first line columns are offsets; behind it the rest is indexed on its own. -/
theorem lineCol?_append (h : '\n' ∉ part) (rest : List Char) (offset : Nat) :
    (ofText (String.ofList (part ++ '\n' :: rest))).lineCol? offset =
      if offset ≤ byteLength part then some ⟨0, offset⟩
      else ((ofText (String.ofList rest)).lineCol? (offset - (byteLength part + 1))).map
        fun p => ⟨p.line + 1, p.col⟩ := by
  rw [ofText_append h]
  generalize ofText (String.ofList rest) = index
  by_cases hle : offset ≤ byteLength part
  · have hsize : ¬byteLength part + 1 + index.size < offset := by omega
    have hfirst : ¬byteLength part < offset := Nat.not_lt.2 hle
    simp [lineCol?, hle, hsize, hfirst]
  · rcases Nat.exists_eq_add_of_le (Nat.succ_le_of_lt (Nat.lt_of_not_le hle)) with ⟨back, rfl⟩
    have hfirst : byteLength part < byteLength part + 1 + back := by omega
    have hsub : (byteLength part).succ + back - (byteLength part + 1) = back := by omega
    have htake : (index.newlines.map (byteLength part + 1 + ·)).takeWhile
        (· < byteLength part + 1 + back) =
        (index.newlines.takeWhile (· < back)).map (byteLength part + 1 + ·) := by
      rw [List.takeWhile_map]
      congr 2
      funext newline
      simp
    rw [if_neg hle, hsub]
    by_cases hsize : index.size < back
    · simp [lineCol?, hsize]
    · simp only [lineCol?, Nat.succ_eq_add_one, Nat.add_lt_add_iff_left, hsize, if_false,
        List.takeWhile_cons, hfirst, decide_true, if_true, htake, Option.map_some,
        List.length_cons, List.length_map, Option.some.injEq, LineCol.mk.injEq, true_and]
      -- The line starts behind the last line feed of the rest, or behind the first line.
      rcases List.eq_nil_or_concat (index.newlines.takeWhile (· < back)) with hnil | ⟨_, last, hlast⟩
      · simp [hnil]
      · rw [hlast, List.concat_eq_append]
        simp [List.getLast?_cons]
        omega

theorem lineCol?_eq_none_iff :
    (ofText (String.ofList cs)).lineCol? offset = none ↔ byteLength cs < offset := by
  have hsize : (ofText (String.ofList cs)).size = byteLength cs := by
    simp only [ofText, String.toList_ofList]
  simp only [lineCol?, hsize]
  split
  · next hlt => simp [hlt]
  · next hnot => simp [hnot]

theorem le_of_lineCol? (h : (ofText (String.ofList cs)).lineCol? offset = some p) :
    offset ≤ byteLength cs := by
  refine Nat.le_of_not_lt fun hlt => ?_
  rw [lineCol?_eq_none_iff.2 hlt] at h
  cases h

/-- The two ways to be placed in a text with a line feed: in its first line or in the rest. -/
theorem lineCol?_append_eq_some (h : '\n' ∉ part)
    (hp : (ofText (String.ofList (part ++ '\n' :: rest))).lineCol? offset = some p) :
    (offset ≤ byteLength part ∧ p = ⟨0, offset⟩) ∨
      ∃ back q, offset = byteLength part + 1 + back ∧ p = ⟨q.line + 1, q.col⟩ ∧
        (ofText (String.ofList rest)).lineCol? back = some q := by
  rw [lineCol?_append h] at hp
  split at hp
  · next hle => exact .inl ⟨hle, (Option.some.inj hp).symm⟩
  · next hnot =>
      rcases Option.map_eq_some_iff.1 hp with ⟨q, hq, rfl⟩
      exact .inr ⟨_, q, by omega, rfl, hq⟩

theorem lineCol?_eq_some_of_not_mem (h : '\n' ∉ cs)
    (hp : (ofText (String.ofList cs)).lineCol? offset = some p) :
    offset ≤ byteLength cs ∧ p = ⟨0, offset⟩ := by
  rw [lineCol?_of_not_mem h] at hp
  split at hp
  · next hle => exact ⟨hle, (Option.some.inj hp).symm⟩
  · cases hp

/-! ## What the index tells -/

theorem locates_of_lineCol? (hp : (ofText (String.ofList cs)).lineCol? offset = some p) :
    p.Locates cs offset := by
  induction cs using by_lines generalizing offset p with
  | last part hpart =>
      rcases lineCol?_eq_some_of_not_mem hpart hp with ⟨hle, rfl⟩
      simpa using LineCol.locates_first hpart hle []
  | line part rest hpart ih =>
      rcases lineCol?_append_eq_some hpart hp with ⟨hle, rfl⟩ | ⟨back, q, rfl, rfl, hq⟩
      · exact LineCol.locates_first hpart hle _
      · exact (ih hq).behind hpart

theorem lineCol?_eq_some_iff :
    (ofText (String.ofList cs)).lineCol? offset = some p ↔
      offset ≤ byteLength cs ∧ p.Locates cs offset := by
  constructor
  · intro hp
    exact ⟨le_of_lineCol? hp, locates_of_lineCol? hp⟩
  · rintro ⟨hle, hp⟩
    cases hq : (ofText (String.ofList cs)).lineCol? offset with
    | none => exact absurd hle (Nat.not_le.2 (lineCol?_eq_none_iff.1 hq))
    | some q => rw [(locates_of_lineCol? hq).unique hp]

/-- A later offset has a later position. -/
theorem before_of_lt {a b : Nat} (hlt : a < b)
    (hp : (ofText (String.ofList cs)).lineCol? a = some p)
    (hq : (ofText (String.ofList cs)).lineCol? b = some q) : p.Before q := by
  induction cs using by_lines generalizing a b p q with
  | last part hpart =>
      rcases lineCol?_eq_some_of_not_mem hpart hp with ⟨_, rfl⟩
      rcases lineCol?_eq_some_of_not_mem hpart hq with ⟨_, rfl⟩
      exact .inr ⟨rfl, hlt⟩
  | line part rest hpart ih =>
      rcases lineCol?_append_eq_some hpart hp with ⟨hle, rfl⟩ | ⟨a', p', rfl, rfl, hp'⟩
      · rcases lineCol?_append_eq_some hpart hq with ⟨_, rfl⟩ | ⟨b', q', rfl, rfl, _⟩
        · exact .inr ⟨rfl, hlt⟩
        · exact .inl (Nat.succ_pos _)
      · rcases lineCol?_append_eq_some hpart hq with ⟨hle, rfl⟩ | ⟨b', q', rfl, rfl, hq'⟩
        · omega
        · rcases ih (Nat.lt_of_add_lt_add_left hlt) hp' hq' with hline | ⟨hline, hcol⟩
          · exact .inl (Nat.succ_lt_succ hline)
          · exact .inr ⟨congrArg (· + 1) hline, hcol⟩

end LineIndex

theorem LineCol.Before.not_before (h : p.Before q) : ¬q.Before p := by
  rintro (hline | ⟨hline, hcol⟩)
  · rcases h with hline' | ⟨hline', _⟩
    · omega
    · omega
  · rcases h with hline' | ⟨_, hcol'⟩
    · omega
    · omega

/-! ## Among the lines of a text -/

namespace LineCol

/-- The position lies in the line: its number finds the line among the lines of the text, and its
column is no further than where the line feed stands. -/
structure InLine (p : LineCol) (offset : Nat) (l : Line cs) : Prop where
  number : l.front.count '\n' = p.line
  indexed : (lines cs)[p.line]? = some l.content
  offset_eq : byteLength l.front + p.col = offset
  col_le : p.col ≤ byteLength l.full

/-- The position is the end of a text whose last line, if there is one, is ended. -/
structure BehindLast (cs : List Char) (offset : Nat) (p : LineCol) : Prop where
  line_eq : p.line = (lines cs).length
  offset_eq : offset = byteLength cs
  ended : cs = [] ∨ cs.getLast? = some '\n'

theorem inLine_whole (h : '\n' ∉ cs) (hne : cs ≠ []) (hle : offset ≤ byteLength cs) :
    (⟨0, offset⟩ : LineCol).InLine offset (Line.whole h hne) where
  number := List.count_nil
  indexed := by simp [lines_of_not_mem h hne, Line.whole]
  offset_eq := Nat.zero_add offset
  col_le := by simpa [Line.full, Line.whole] using hle

theorem inLine_first (h : '\n' ∉ part) (hle : offset ≤ byteLength part) (rest : List Char) :
    (⟨0, offset⟩ : LineCol).InLine offset (Line.first h rest) where
  number := List.count_nil
  indexed := by
    rw [lines_append h]
    rfl
  offset_eq := Nat.zero_add offset
  col_le := by rwa [Line.full_first]

theorem InLine.behind {l : Line rest} (hp : p.InLine offset l) (h : '\n' ∉ part) :
    (⟨p.line + 1, p.col⟩ : LineCol).InLine (byteLength part + 1 + offset) (l.behind part) where
  number := by
    simp only [Line.behind, List.count_append, List.count_eq_zero.2 h, List.count_cons_self,
      hp.number, Nat.zero_add]
  indexed := by
    rw [lines_append h, List.getElem?_cons_succ]
    exact hp.indexed
  offset_eq := by
    have hsize : '\n'.utf8Size = 1 := rfl
    simp only [Line.behind, byteLength_append, byteLength_cons, hsize, ← hp.offset_eq,
      Nat.add_assoc]
  col_le := hp.col_le

theorem BehindLast.behind (hp : p.BehindLast rest offset) (h : '\n' ∉ part) :
    (⟨p.line + 1, p.col⟩ : LineCol).BehindLast (part ++ '\n' :: rest)
      (byteLength part + 1 + offset) where
  line_eq := by simp only [lines_append h, List.length_cons, hp.line_eq]
  offset_eq := by
    have hsize : '\n'.utf8Size = 1 := rfl
    simp only [byteLength_append, byteLength_cons, hsize, hp.offset_eq, Nat.add_assoc]
  ended := by
    refine .inr ?_
    rw [List.getLast?_append_of_ne_nil _ (List.cons_ne_nil _ _)]
    rcases hp.ended with rfl | hlast
    · rfl
    · rw [List.getLast?_cons, hlast]
      rfl

end LineCol

/-- Every offset lies in a line, or behind the last one. -/
theorem LineIndex.placed_of_lineCol?
    (hp : (LineIndex.ofText (String.ofList cs)).lineCol? offset = some p) :
    (∃ l : Line cs, p.InLine offset l) ∨ p.BehindLast cs offset := by
  induction cs using by_lines generalizing offset p with
  | last part hpart =>
      rcases lineCol?_eq_some_of_not_mem hpart hp with ⟨hle, rfl⟩
      by_cases hne : part = []
      · subst hne
        exact .inr ⟨rfl, Nat.le_zero.1 hle, .inl rfl⟩
      · exact .inl ⟨_, LineCol.inLine_whole hpart hne hle⟩
  | line part rest hpart ih =>
      rcases lineCol?_append_eq_some hpart hp with ⟨hle, rfl⟩ | ⟨back, q, rfl, rfl, hq⟩
      · exact .inl ⟨_, LineCol.inLine_first hpart hle rest⟩
      · rcases ih hq with ⟨l, hl⟩ | hbehind
        · exact .inl ⟨_, hl.behind hpart⟩
        · exact .inr (hbehind.behind hpart)

/-! ## What a report quotes -/

namespace Report

variable {file source : String} {w : Warning} {content : List Char}

/-- The first two lines about a warning. -/
def heading (file : String) (p : LineCol) (w : Warning) : String :=
  file ++ ":" ++ Nat.repr (p.line + 1) ++ ":" ++ Nat.repr (p.col + 1) ++ "\n" ++
    "Warning: " ++ w.message ++ " (" ++ w.code ++ ")\n"

/-- A line of the source with its number, and a mark under the column. -/
def quotation (p : LineCol) (content : List Char) : String :=
  let number := Nat.repr (p.line + 1)
  "  " ++ number ++ " | " ++ String.ofList content ++ "\n" ++
    "  " ++ "".pushn ' ' number.length ++ " | " ++ "".pushn ' ' p.col ++ "^\n"

theorem human_eq (hp : (LineIndex.ofText source).lineCol? w.span.start = some p) :
    text .human [w] file source =
      heading file p w ++ (((lines source.toList)[p.line]?.map (quotation p)).getD "") ++ "\n" := by
  have hposition : position (LineIndex.ofText source) w.span.start =
      ⟨p.line + 1, p.col + 1, w.span.start⟩ := by
    rw [position, hp]
    rfl
  have hentry : text .human [w] file source = humanEntry (LineIndex.ofText source)
      ((lines source.toList).map String.ofList).toArray file w := by
    simp [text, human]
  rw [hentry]
  simp only [humanEntry, hposition, snippet, heading, Nat.add_sub_cancel, List.getElem?_toArray,
    List.getElem?_map]
  cases (lines source.toList)[p.line]? with
  | none => simp
  | some content => simp [quotation]

end Report

/-- Positions are exact. An offset has none only if it is past the end of the text; otherwise its
line is the number of line feeds in front of it, and its column the number of bytes since the line
has started. So positions come in the order of the offsets. Each lies in a line of the text, which a
report in the human format quotes without what ends it; or it is the end of a text that has no last
line left open, and nothing is quoted. -/
theorem LineIndex.lineCol?_exact (text : String) :
    (∀ offset, (LineIndex.ofText text).lineCol? offset = none ↔
      byteLength text.toList < offset) ∧
    (∀ offset p, (LineIndex.ofText text).lineCol? offset = some p ↔
      offset ≤ byteLength text.toList ∧ p.Locates text.toList offset) ∧
    (∀ a b p q, (LineIndex.ofText text).lineCol? a = some p →
      (LineIndex.ofText text).lineCol? b = some q → (a < b ↔ p.Before q) ∧ (a = b ↔ p = q)) ∧
    ∀ offset p, (LineIndex.ofText text).lineCol? offset = some p →
      (∃ l : Line text.toList, p.InLine offset l ∧
        ∀ file w, w.span.start = offset → Report.text .human [w] file text =
          Report.heading file p w ++ Report.quotation p l.content ++ "\n") ∨
      p.BehindLast text.toList offset ∧
        ∀ file w, w.span.start = offset → Report.text .human [w] file text =
          Report.heading file p w ++ "\n" := by
  obtain ⟨cs, rfl⟩ : ∃ cs, text = String.ofList cs := ⟨text.toList, String.ofList_toList.symm⟩
  rw [String.toList_ofList]
  refine ⟨fun _ => lineCol?_eq_none_iff, fun _ _ => lineCol?_eq_some_iff, fun a b p q hp hq => ?_,
    fun offset p hp => ?_⟩
  · rcases Nat.lt_trichotomy a b with hlt | rfl | hgt
    · have hfront : p.Before q := before_of_lt hlt hp hq
      refine ⟨iff_of_true hlt hfront, iff_of_false (Nat.ne_of_lt hlt) ?_⟩
      rintro rfl
      exact hfront.not_before hfront
    · have hsame : p = q := Option.some.inj (hp.symm.trans hq)
      subst hsame
      exact ⟨iff_of_false (Nat.lt_irrefl a) fun h => h.not_before h, iff_of_true rfl rfl⟩
    · have hback : q.Before p := before_of_lt hgt hq hp
      refine ⟨iff_of_false (Nat.lt_asymm hgt) hback.not_before,
        iff_of_false (Nat.ne_of_gt hgt) ?_⟩
      rintro rfl
      exact hback.not_before hback
  · rcases placed_of_lineCol? hp with ⟨l, hl⟩ | hbehind
    · refine .inl ⟨l, hl, fun file w hw => ?_⟩
      rw [Report.human_eq (hw ▸ hp), String.toList_ofList, hl.indexed]
      rfl
    · refine .inr ⟨hbehind, fun file w hw => ?_⟩
      rw [Report.human_eq (hw ▸ hp), String.toList_ofList,
        List.getElem?_eq_none (Nat.le_of_eq hbehind.line_eq.symm)]
      simp

end TemplateMarkup
