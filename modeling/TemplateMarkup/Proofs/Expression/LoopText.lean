import Mathlib.Data.List.Basic
import Mathlib.Data.List.TakeWhile
import TemplateMarkup.Expression.LoopHeader
import TemplateMarkup.Proofs.Text.Cutting

/-!
# Loop headers as they are written

A loop header is an item, at most two iterators, a separator and a source. A text of this form
carries the proofs that its parts can be told from each other:

* `LoopHeader.HoldsSeparator cs` — `in` or `of` stands somewhere in `cs` between blanks; a header is
  split if and only if it does (`splitOnto_eq_none_iff`),
* `LoopHeader.IteratorText`, `LoopHeader.LeftSide`, `LoopHeader.LoopText` — the parts of a header as
  they are written, with `chars` for their characters,
* `LoopHeader.LoopText.header` — the header that such a text is written for.

The first separator is the one behind the left side (`LoopText.splitOnto_chars`), and the first
comma that only iterators follow is the one behind the item (`LeftSide.itemOnto_inner`), so that
what is written is read again: `LoopHeader.parse?_written`.
-/

namespace TemplateMarkup
namespace LoopHeader

variable {front back cs rest item : List Char}

/-! ## Separators -/

/-- The words between the left side and the source. -/
def IsKeyword (cs : List Char) : Prop :=
  cs = "in".toList ∨ cs = "of".toList

/-- A keyword with a blank on both sides. -/
def HoldsSeparator (cs : List Char) : Prop :=
  ∃ front before keyword after back, cs = front ++ before :: (keyword ++ after :: back) ∧
    IsKeyword keyword ∧ Text.isBlank before ∧ Text.isBlank after

theorem IsKeyword.not_blank {keyword : List Char} (h : IsKeyword keyword) :
    ∀ c ∈ keyword, Text.isBlank c = false := by
  rcases h with rfl | rfl
  · simp [Text.isBlank]
  · simp [Text.isBlank]

/-- Behind its blanks, a separator has a keyword and one more blank. -/
theorem afterSeparator?_keyword (h : afterSeparator? cs = some rest) :
    cs.takeWhile Text.isBlank ≠ [] ∧
      ∃ keyword after, cs.dropWhile Text.isBlank = keyword ++ after :: rest ∧
        IsKeyword keyword ∧ Text.isBlank after := by
  unfold afterSeparator? at h
  split at h
  · cases h
  · next c tail =>
      split at h
      · next hc =>
          refine ⟨by simp [hc], ?_⟩
          -- One case for each keyword.
          split at h
          · next after rest' hdrop =>
              split at h
              · next hafter =>
                  cases h
                  exact ⟨"in".toList, after, hdrop, .inl rfl, hafter⟩
              · cases h
          · next after rest' hdrop =>
              split at h
              · next hafter =>
                  cases h
                  exact ⟨"of".toList, after, hdrop, .inr rfl, hafter⟩
              · cases h
          · cases h
      · cases h

/-- What is taken for a separator: blanks, a keyword and one more blank. -/
theorem afterSeparator?_eq_some (h : afterSeparator? cs = some rest) :
    ∃ blanks before keyword after, cs = blanks ++ before :: (keyword ++ after :: rest) ∧
      IsKeyword keyword ∧ (∀ c ∈ blanks, Text.isBlank c) ∧ Text.isBlank before ∧
      Text.isBlank after := by
  rcases afterSeparator?_keyword h with ⟨hne, keyword, after, hdrop, hkeyword, hafter⟩
  -- The last of the blanks is the one in front of the keyword.
  rcases List.eq_nil_or_concat (cs.takeWhile Text.isBlank) with hnil | ⟨blanks, before, htake⟩
  · exact absurd hnil hne
  have hblank : ∀ c ∈ blanks.concat before, Text.isBlank c = true := by
    rw [← htake]
    exact List.all_eq_true.1 List.all_takeWhile
  rw [List.concat_eq_append, List.forall_mem_append, List.forall_mem_singleton] at hblank
  refine ⟨blanks, before, keyword, after, ?_, hkeyword, hblank.1, hblank.2, hafter⟩
  calc
    cs = cs.takeWhile Text.isBlank ++ cs.dropWhile Text.isBlank :=
      List.takeWhile_append_dropWhile.symm
    _ = blanks ++ before :: (keyword ++ after :: rest) := by
      rw [htake, hdrop, List.concat_eq_append, List.append_assoc, List.singleton_append]

/-- Blanks, a keyword and one more blank are a separator. -/
theorem afterSeparator?_append {blanks keyword : List Char} {after : Char} (hne : blanks ≠ [])
    (hblanks : ∀ c ∈ blanks, Text.isBlank c) (hkeyword : IsKeyword keyword)
    (hafter : Text.isBlank after) (rest : List Char) :
    afterSeparator? (blanks ++ (keyword ++ after :: rest)) = some rest := by
  have hdrop : (blanks ++ (keyword ++ after :: rest)).dropWhile Text.isBlank =
      keyword ++ after :: rest := by
    rw [List.dropWhile_append_of_pos hblanks]
    rcases hkeyword with rfl | rfl
    · rfl
    · rfl
  rcases List.exists_cons_of_ne_nil hne with ⟨b, more, rfl⟩
  have hb : Text.isBlank b = true := hblanks b List.mem_cons_self
  rw [List.cons_append] at hdrop ⊢
  simp only [afterSeparator?, hb, if_true, hdrop]
  rcases hkeyword with rfl | rfl
  · simp [hafter]
  · simp [hafter]

theorem splitOnto_nil (front : List Char) : splitOnto front [] = none := by rfl

theorem splitOnto_cons (front : List Char) (c : Char) (cs : List Char) :
    splitOnto front (c :: cs) =
      match afterSeparator? (c :: cs) with
      | some source => some (front.reverse, source)
      | none => splitOnto (c :: front) cs := by rfl

/-- A header is split if there is a separator in it, and only then. -/
theorem splitOnto_eq_none_iff : splitOnto front cs = none ↔ ¬HoldsSeparator cs := by
  -- The search tries one place after the other; what lies in front of it is only carried along.
  induction cs generalizing front with
  | nil =>
      have hnot : ¬HoldsSeparator [] := by
        rintro ⟨front, before, keyword, after, back, hcs, _⟩
        simp at hcs
      simp only [splitOnto_nil, hnot, not_false_eq_true]
  | cons c cs ih =>
      rw [splitOnto_cons]
      cases hafter : afterSeparator? (c :: cs) with
      | some source =>
          rcases afterSeparator?_eq_some hafter with
            ⟨blanks, before, keyword, after, hcs, hkeyword, _, hbefore, hblank⟩
          have hholds : HoldsSeparator (c :: cs) :=
            ⟨blanks, before, keyword, after, source, hcs, hkeyword, hbefore, hblank⟩
          simp [hholds]
      | none =>
          dsimp only
          rw [ih]
          refine not_congr ⟨?_, ?_⟩
          · rintro ⟨front, before, keyword, after, back, rfl, hends⟩
            exact ⟨c :: front, before, keyword, after, back, rfl, hends⟩
          · rintro ⟨front, before, keyword, after, back, hcs, hkeyword, hbefore, hblank⟩
            cases front with
            | nil =>
                -- A separator at the front would have been seen.
                have hsome : afterSeparator? ([before] ++ (keyword ++ after :: back)) = some back :=
                  afterSeparator?_append (by simp) (by simpa using hbefore) hkeyword hblank back
                rw [hcs] at hafter
                cases hafter.symm.trans hsome
            | cons d front =>
                exact ⟨front, before, keyword, after, back, (List.cons.inj hcs).2, hkeyword,
                  hbefore, hblank⟩

instance (cs : List Char) : Decidable (HoldsSeparator cs) :=
  decidable_of_iff (¬splitOnto [] cs = none)
    ((not_congr splitOnto_eq_none_iff).trans Classical.not_not)

/-- No separator starts in `left`, so the search goes on behind it. -/
theorem splitOnto_append {left : List Char}
    (h : ∀ s t, left = s ++ t → t ≠ [] → afterSeparator? (t ++ rest) = none) :
    splitOnto front (left ++ rest) = splitOnto (left.reverse ++ front) rest := by
  induction left generalizing front with
  | nil => simp only [List.nil_append, List.reverse_nil]
  | cons c left ih =>
      have hnone : afterSeparator? (c :: (left ++ rest)) = none := h [] (c :: left) rfl (by simp)
      have htail : ∀ s t, left = s ++ t → t ≠ [] → afterSeparator? (t ++ rest) = none := by
        intro s t hleft
        exact h (c :: s) t (by rw [hleft, List.cons_append])
      rw [List.cons_append, splitOnto_cons, hnone]
      dsimp only
      rw [ih htail, List.reverse_cons, List.append_assoc, List.singleton_append]

/-! ## Iterators -/

theorem isIteratorChar_iff {c : Char} :
    isIteratorChar c = true ↔ c ≠ ',' ∧ c ≠ '\x7d' ∧ c ≠ ']' := by
  simp [isIteratorChar, and_assoc]

theorem readIterators?_one (h : ∀ c ∈ cs, isIteratorChar c) :
    readIterators? cs = some (cs, none) := by
  have htake : cs.takeWhile isIteratorChar = cs := List.takeWhile_eq_self_iff.2 h
  have hdrop : cs.dropWhile isIteratorChar = [] := List.dropWhile_eq_nil_iff.2 h
  simp only [readIterators?, htake, hdrop]

theorem readIterators?_two {first second : List Char} (hfirst : ∀ c ∈ first, isIteratorChar c)
    (hsecond : ∀ c ∈ second, isIteratorChar c) :
    readIterators? (first ++ ',' :: second) = some (first, some second) := by
  have htake : (first ++ ',' :: second).takeWhile isIteratorChar = first := by
    rw [List.takeWhile_append_of_pos hfirst]
    simp [isIteratorChar]
  have hdrop : (first ++ ',' :: second).dropWhile isIteratorChar = ',' :: second := by
    rw [List.dropWhile_append_of_pos hfirst]
    simp [isIteratorChar]
  have hall : second.all isIteratorChar = true := List.all_eq_true.2 hsecond
  simp only [readIterators?, htake, hdrop, hall, if_true]

/-- Where iterators are read, no closing bracket stands anywhere. -/
theorem readIterators?_eq_none {c : Char} (hmem : c ∈ cs) (hc : c = '\x7d' ∨ c = ']') :
    readIterators? cs = none := by
  have hnot : isIteratorChar c = false := by rcases hc with rfl | rfl <;> rfl
  have hcomma : c ≠ ',' := by rcases hc with rfl | rfl <;> decide
  -- The bracket ends the first iterator, and there is no second one with it either.
  have hdropped : c ∈ cs.dropWhile isIteratorChar := by
    rw [← List.takeWhile_append_dropWhile (p := isIteratorChar) (l := cs), List.mem_append] at hmem
    refine hmem.resolve_left fun htaken => ?_
    rw [List.all_eq_true.1 List.all_takeWhile c htaken] at hnot
    cases hnot
  unfold readIterators?
  dsimp only
  split
  · next hnil =>
      rw [hnil] at hdropped
      cases hdropped
  · next second hsecond =>
      rw [hsecond, List.mem_cons] at hdropped
      have hall : ¬second.all isIteratorChar = true := by
        intro hall
        rw [List.all_eq_true.1 hall c (hdropped.resolve_left hcomma)] at hnot
        cases hnot
      rw [if_neg hall]
  · rfl

theorem itemOnto_nil (front : List Char) : itemOnto front [] = none := by rfl

theorem itemOnto_cons (front : List Char) (c : Char) (cs : List Char) :
    itemOnto front (c :: cs) =
      match if c = ',' then readIterators? cs else none with
      | some (first, second) => some (front.reverse, first, second)
      | none => itemOnto (c :: front) cs := by rfl

/-- No comma in `item` is followed by iterators alone, so the search goes on behind it. -/
theorem itemOnto_append (h : ∀ s t, item = s ++ ',' :: t → readIterators? (t ++ rest) = none) :
    itemOnto front (item ++ rest) = itemOnto (item.reverse ++ front) rest := by
  induction item generalizing front with
  | nil => simp only [List.nil_append, List.reverse_nil]
  | cons c item ih =>
      have hnone : (if c = ',' then readIterators? (item ++ rest) else none) = none := by
        split
        · next hc => exact h [] item (by rw [hc, List.nil_append])
        · rfl
      have htail : ∀ s t, item = s ++ ',' :: t → readIterators? (t ++ rest) = none := by
        intro s t hitem
        exact h (c :: s) t (by rw [hitem, List.cons_append])
      rw [List.cons_append, itemOnto_cons, hnone]
      dsimp only
      rw [ih htail, List.reverse_cons, List.append_assoc, List.singleton_append]

/-! ## Parentheses -/

theorem dropParens_enclosed (cs : List Char) : dropParens ('(' :: (cs ++ [')'])) = cs := by
  simp [dropParens]

theorem dropParens_of_ends (hhead : cs.head? ≠ some '(') (hlast : cs.getLast? ≠ some ')') :
    dropParens cs = cs := by
  unfold dropParens
  dsimp only
  split
  · exact absurd rfl hhead
  · rw [if_neg hlast]

/-! ## Headers as they are written -/

/-- An iterator, as it stands behind a comma. -/
structure IteratorText where
  chars : List Char
  nonempty : chars ≠ []
  trimmed : Text.Trimmed chars
  unmarked : ∀ c ∈ chars, c ≠ ',' ∧ c ≠ '\x7d' ∧ c ≠ ']'
  last_ne : chars.getLast? ≠ some ')'

/-- The item and at most two iterators, all of it perhaps between parentheses. An item with commas
of its own has a closing bracket behind them. -/
structure LeftSide where
  item : List Char
  iterators : List IteratorText
  enclosed : Bool
  item_nonempty : item ≠ []
  item_trimmed : Text.Trimmed item
  item_head : item.head? ≠ some '('
  item_last : item.getLast? ≠ some ')'
  item_commas : ',' ∉ item ∨ item.getLast? = some '\x7d' ∨ item.getLast? = some ']'
  iterators_length : iterators.length ≤ 2

namespace LeftSide

/-- The item and its iterators, with a comma and a space in front of each iterator. -/
def inner (l : LeftSide) : List Char :=
  l.item ++ l.iterators.flatMap fun a => ',' :: ' ' :: a.chars

def chars (l : LeftSide) : List Char :=
  if l.enclosed then '(' :: (l.inner ++ [')']) else l.inner

end LeftSide

/-- A loop header as it is written. The left side holds no separator, nor does it start one. -/
structure LoopText where
  left : LeftSide
  lead : List Char
  keyword : List Char
  trail : List Char
  source : List Char
  separate : ¬HoldsSeparator (left.chars ++ [' '])
  lead_nonempty : lead ≠ []
  lead_blank : ∀ c ∈ lead, Text.isBlank c
  isKeyword : IsKeyword keyword
  trail_nonempty : trail ≠ []
  trail_blank : ∀ c ∈ trail, Text.isBlank c
  source_nonempty : source ≠ []
  source_trimmed : Text.Trimmed source

namespace LoopText

def chars (t : LoopText) : List Char :=
  t.left.chars ++ (t.lead ++ (t.keyword ++ (t.trail ++ t.source)))

/-- The header that is written. -/
def header (t : LoopText) : LoopHeader :=
  { source := String.ofList t.source
    item := String.ofList t.left.item
    iterator1 := t.left.iterators[0]?.map fun a => String.ofList a.chars
    iterator2 := t.left.iterators[1]?.map fun a => String.ofList a.chars }

end LoopText

/-! ## Reading what is written -/

theorem IteratorText.trim_space (a : IteratorText) : Text.trim (' ' :: a.chars) = a.chars :=
  a.trimmed.trim_append (List.forall_mem_singleton.2 (by decide))

theorem IteratorText.isIteratorChar_of_mem (a : IteratorText) :
    ∀ c ∈ ' ' :: a.chars, isIteratorChar c := by
  intro c hc
  rcases List.mem_cons.1 hc with rfl | hc
  · decide
  · exact isIteratorChar_iff.2 (a.unmarked c hc)

namespace LeftSide

variable (l : LeftSide)

/-- A comma of the item is not taken for the one behind it. -/
theorem readIterators?_item {s t : List Char} (h : l.item = s ++ ',' :: t) (rest : List Char) :
    readIterators? (t ++ rest) = none := by
  have hbracket (c : Char) (hc : c = '\x7d' ∨ c = ']') (hlast : l.item.getLast? = some c) :
      readIterators? (t ++ rest) = none := by
    -- The last character of the item is a bracket, so it stands behind the comma.
    rw [h, List.getLast?_append_of_ne_nil _ (List.cons_ne_nil _ _)] at hlast
    have hmem : c ∈ t := by
      refine (List.mem_cons.1 (List.mem_of_getLast? hlast)).resolve_left ?_
      rintro rfl
      exact absurd hc (by decide)
    exact readIterators?_eq_none (List.mem_append_left rest hmem) hc
  rcases l.item_commas with hcomma | hlast | hlast
  · exact absurd (by simp [h]) hcomma
  · exact hbracket _ (.inl rfl) hlast
  · exact hbracket _ (.inr rfl) hlast

/-- The item and the iterators are told apart at the comma behind the item. -/
theorem itemOnto_inner :
    itemOnto [] l.inner = l.iterators[0]?.map fun a =>
      (l.item, ' ' :: a.chars, l.iterators[1]?.map fun b => ' ' :: b.chars) := by
  rw [inner, itemOnto_append fun s t h => l.readIterators?_item h _]
  have hlength := l.iterators_length
  cases hiterators : l.iterators with
  | nil =>
      rw [List.flatMap_nil, itemOnto_nil]
      rfl
  | cons a more =>
      rw [List.flatMap_cons, List.cons_append, itemOnto_cons, if_pos rfl]
      cases more with
      | nil =>
          rw [List.flatMap_nil, List.append_nil, readIterators?_one a.isIteratorChar_of_mem]
          simp
      | cons b more =>
          -- There is no third iterator.
          have hmore : more = [] := by
            rw [hiterators] at hlength
            simpa using hlength
          rw [hmore, List.flatMap_cons, List.flatMap_nil, List.append_nil,
            readIterators?_two a.isIteratorChar_of_mem b.isIteratorChar_of_mem]
          simp

/-- The item or the last iterator is at the end. -/
theorem exists_last :
    ∃ front last, l.inner = front ++ last ∧ last ≠ [] ∧ Text.Trimmed last ∧
      last.getLast? ≠ some ')' := by
  rcases List.eq_nil_or_concat l.iterators with hnil | ⟨more, a, hconcat⟩
  · refine ⟨[], l.item, ?_, l.item_nonempty, l.item_trimmed, l.item_last⟩
    rw [inner, hnil, List.flatMap_nil, List.append_nil, List.nil_append]
  · refine ⟨l.item ++ more.flatMap (fun a => ',' :: ' ' :: a.chars) ++ [',', ' '], a.chars, ?_,
      a.nonempty, a.trimmed, a.last_ne⟩
    rw [inner, hconcat]
    simp

theorem head?_inner : l.inner.head? = l.item.head? := by
  rcases List.exists_cons_of_ne_nil l.item_nonempty with ⟨c, item, hitem⟩
  rw [inner, hitem]
  rfl

theorem trimmed_inner : Text.Trimmed l.inner := by
  rcases l.exists_last with ⟨front, last, hinner, hne, htrimmed, _⟩
  refine ⟨?_, ?_⟩
  · rw [head?_inner]
    exact l.item_trimmed.head
  · rw [hinner, List.getLast?_append_of_ne_nil _ hne]
    exact htrimmed.last

theorem trimmed_chars : Text.Trimmed l.chars := by
  unfold chars
  split
  · constructor
    · intro c hc
      cases hc
      decide
    · intro c hc
      rw [← List.cons_append, List.getLast?_concat] at hc
      cases hc
      decide
  · exact l.trimmed_inner

theorem dropParens_chars : dropParens l.chars = l.inner := by
  unfold chars
  split
  · exact dropParens_enclosed l.inner
  · rcases l.exists_last with ⟨front, last, hinner, hne, _, hlast⟩
    refine dropParens_of_ends ?_ ?_
    · rw [head?_inner]
      exact l.item_head
    · rw [hinner, List.getLast?_append_of_ne_nil _ hne]
      exact hlast

end LeftSide

/-- A text that does not end in a blank reaches beyond blanks at its front. -/
theorem exists_behind_blanks {p q r t : List Char} (hne : t ≠ [])
    (hlast : ∀ c ∈ t.getLast?, Text.isBlank c = false) (hp : ∀ c ∈ p, Text.isBlank c)
    (h : t ++ q = p ++ r) : ∃ more, t = p ++ more ∧ r = more ++ q := by
  rcases List.append_eq_append_iff.1 h with ⟨more, hmore, _⟩ | ⟨more, ht, hr⟩
  · exfalso
    have hmem : t.getLast hne ∈ p := by
      rw [hmore]
      exact List.mem_append_left more (List.getLast_mem hne)
    have hsolid := hlast (t.getLast hne) (List.getLast?_eq_some_getLast hne)
    rw [hp _ hmem] at hsolid
    cases hsolid
  · exact ⟨more, ht, hr⟩

/-- What is in front of `b` and holds no `b` is in front of it as a whole. -/
theorem exists_behind_of_not_mem {b : Char} {p q r t : List Char} (hp : b ∉ p)
    (h : p ++ q = t ++ b :: r) : ∃ more, t = p ++ more ∧ q = more ++ b :: r := by
  rcases List.append_eq_append_iff.1 h with ⟨more, ht, hq⟩ | ⟨more, hmore, hr⟩
  · exact ⟨more, ht, hq⟩
  · cases more with
    | nil => exact ⟨[], by simpa using hmore.symm, by simpa using hr.symm⟩
    | cons c more =>
        have hhead : b = c := (List.cons.inj hr).1
        exact absurd (by simp [hmore, hhead]) hp

/-- A separator does not start in a left side that holds none. -/
theorem afterSeparator?_eq_none {left lead s t : List Char}
    (hlast : ∀ c ∈ left.getLast?, Text.isBlank c = false)
    (hseparate : ¬HoldsSeparator (left ++ [' '])) (hne : lead ≠ [])
    (hlead : ∀ c ∈ lead, Text.isBlank c) (hleft : left = s ++ t) (ht : t ≠ [])
    (rest : List Char) : afterSeparator? (t ++ (lead ++ rest)) = none := by
  rw [Option.eq_none_iff_forall_ne_some]
  intro source h
  rcases afterSeparator?_eq_some h with
    ⟨blanks, before, keyword, after, heq, hkeyword, hblanks, hbefore, hafter⟩
  rcases List.exists_cons_of_ne_nil hne with ⟨b, lead, rfl⟩
  have hb : Text.isBlank b = true := hlead b List.mem_cons_self
  -- The blanks of the separator end in `t`, which does not end in a blank itself.
  have hlastBlanks : ∀ c ∈ blanks ++ [before], Text.isBlank c = true := by
    rw [List.forall_mem_append, List.forall_mem_singleton]
    exact ⟨hblanks, hbefore⟩
  have hlastSolid : ∀ c ∈ t.getLast?, Text.isBlank c = false := by
    rwa [hleft, List.getLast?_append_of_ne_nil s ht] at hlast
  have hsame : t ++ (b :: lead ++ rest) =
      (blanks ++ [before]) ++ (keyword ++ after :: source) := by
    rw [heq, List.append_assoc, List.singleton_append]
  rcases exists_behind_blanks ht hlastSolid hlastBlanks hsame with ⟨more, rfl, hmore⟩
  -- So does the keyword, which has no blank in it.
  have hb_not_mem : b ∉ keyword := by
    intro hmem
    rw [hkeyword.not_blank b hmem] at hb
    cases hb
  rcases exists_behind_of_not_mem hb_not_mem hmore with ⟨back, rfl, hback⟩
  -- Behind it stands the last blank of the separator, or the space behind the left side.
  have hend : ∃ d tail, back ++ [' '] = d :: tail ∧ Text.isBlank d = true := by
    cases back with
    | nil => exact ⟨' ', [], rfl, by decide⟩
    | cons d back =>
        have hhead : after = d := (List.cons.inj hback).1
        exact ⟨d, back ++ [' '], rfl, hhead ▸ hafter⟩
  rcases hend with ⟨d, tail, htail, hd⟩
  refine hseparate ⟨s ++ blanks, before, keyword, d, tail, ?_, hkeyword, hbefore, hd⟩
  rw [hleft]
  simp [htail]

namespace LoopText

variable (t : LoopText)

/-- A header is split behind its left side; one blank behind the keyword goes with it. -/
theorem splitOnto_chars :
    ∃ blanks, (∀ c ∈ blanks, Text.isBlank c) ∧
      splitOnto [] t.chars = some (t.left.chars, blanks ++ t.source) := by
  rcases List.exists_cons_of_ne_nil t.trail_nonempty with ⟨b, blanks, htrail⟩
  have hblank := t.trail_blank
  rw [htrail, List.forall_mem_cons] at hblank
  refine ⟨blanks, hblank.2, ?_⟩
  have hsource : afterSeparator? (t.lead ++ (t.keyword ++ (t.trail ++ t.source))) =
      some (blanks ++ t.source) := by
    rw [htrail]
    exact afterSeparator?_append t.lead_nonempty t.lead_blank t.isKeyword hblank.1 _
  have hleft : ∀ r s, t.left.chars = r ++ s → s ≠ [] →
      afterSeparator? (s ++ (t.lead ++ (t.keyword ++ (t.trail ++ t.source)))) = none :=
    fun r s hchars hs => afterSeparator?_eq_none t.left.trimmed_chars.last t.separate
      t.lead_nonempty t.lead_blank hchars hs _
  rw [chars, splitOnto_append hleft]
  rcases List.exists_cons_of_ne_nil t.lead_nonempty with ⟨c, lead, hlead⟩
  rw [hlead, List.cons_append] at hsource ⊢
  rw [splitOnto_cons, hsource]
  simp

end LoopText

/-- What is written as a loop header is read again, even if its source holds separators. -/
theorem parse?_written (t : LoopText) : parse? (String.ofList t.chars) = some t.header := by
  rcases t.splitOnto_chars with ⟨blanks, hblanks, hsplit⟩
  unfold parse?
  rw [String.toList_ofList, hsplit]
  dsimp only
  rw [t.source_trimmed.trim_append hblanks, t.left.trimmed_chars.trim_self,
    t.left.dropParens_chars, t.left.itemOnto_inner]
  unfold LoopText.header
  cases hiterators : t.left.iterators with
  | nil =>
      have hinner : t.left.inner = t.left.item := by
        rw [LeftSide.inner, hiterators, List.flatMap_nil, List.append_nil]
      simp [hinner]
  | cons a more =>
      have hsecond : (more[0]?.map fun b => ' ' :: b.chars).filter (· ≠ []) =
          more[0]?.map fun b => ' ' :: b.chars := by
        cases more[0]? with
        | none => rfl
        | some b => rfl
      simp only [List.getElem?_cons_zero, List.getElem?_cons_succ, Option.map_some, hsecond,
        t.left.item_trimmed.trim_self, a.trim_space, Option.map_map]
      simp [Function.comp_def, IteratorText.trim_space]

/-- Commas of the item between braces, and a separator in the source. -/
theorem parse?_written_destructured :
    parse? "(\x7b a, b \x7d, i)  of xs in ys" =
      some
        { source := "xs in ys"
          item := "\x7b a, b \x7d"
          iterator1 := some "i"
          iterator2 := none } := by
  have hiterator : Text.Trimmed "i".toList := ⟨by simp [Text.isBlank], by simp [Text.isBlank]⟩
  have hitem : Text.Trimmed "\x7b a, b \x7d".toList :=
    ⟨by simp [Text.isBlank], by simp [Text.isBlank]⟩
  have hsource : Text.Trimmed "xs in ys".toList := ⟨by simp [Text.isBlank], by simp [Text.isBlank]⟩
  have hseparate : ¬HoldsSeparator "(\x7b a, b \x7d, i) ".toList := by decide
  let iterator : IteratorText := ⟨"i".toList, by decide, hiterator, by simp, by decide⟩
  let left : LeftSide :=
    ⟨"\x7b a, b \x7d".toList, [iterator], true, by decide, hitem, by decide, by decide, by decide,
      by simp⟩
  exact parse?_written
    ⟨left, "  ".toList, "of".toList, " ".toList, "xs in ys".toList, hseparate, by decide,
      by simp [Text.isBlank], .inr rfl, by decide, by simp [Text.isBlank], by decide, hsource⟩

end LoopHeader
end TemplateMarkup
