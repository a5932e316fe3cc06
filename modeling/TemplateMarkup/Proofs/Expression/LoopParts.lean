import TemplateMarkup.Proofs.Expression.LoopText
import TemplateMarkup.Proofs.Text.Trimming

/-!
# The parts of a loop header

A loop header is trimmed in several places: the left side as a whole, the source, and, where there
are iterators, the item and each iterator. This file defines:

* `LoopHeader.Divided cs left source` — `left` and `source` stand around the first separator of
  `cs`; a header is split there and nowhere else (`LoopHeader.splitOnto_eq_some_iff`),
* `LoopHeader.Padded` — a blank stands right inside a parenthesis,
* `LoopHeader.EndsBlank` — nothing but blanks stands behind the last comma,
* `LoopHeader.Normal` — no part has a blank at an end, and a second iterator is not empty.

The last two of them tell which headers are read into parts that are not normal
(`LoopHeader.parse?_parts`).
-/

namespace TemplateMarkup
namespace LoopHeader

variable {header : String} {loop : LoopHeader} {front left source cs first item : List Char}
  {second : Option (List Char)} {c : Char}

/-! ## Where a header is split -/

/-- A text and what stands around its first separator. The blanks in front of the keyword are the
separator's. -/
structure Divided (cs left source : List Char) : Prop where
  form : ∃ lead keyword after, cs = left ++ (lead ++ (keyword ++ after :: source)) ∧ lead ≠ [] ∧
    (∀ c ∈ lead, Text.isBlank c) ∧ IsKeyword keyword ∧ Text.isBlank after
  solid : ∀ c ∈ left.getLast?, Text.isBlank c = false
  first : ¬HoldsSeparator (left ++ [' '])

/-- The search stops in front of the separator it finds and has seen none before. -/
theorem splitOnto_stops (h : splitOnto front cs = some (left, source)) :
    ∃ more rest, cs = more ++ rest ∧ left = front.reverse ++ more ∧
      afterSeparator? rest = some source ∧
      ∀ s t, more = s ++ t → t ≠ [] → afterSeparator? (t ++ rest) = none := by
  induction cs generalizing front with
  | nil =>
      rw [splitOnto_nil] at h
      cases h
  | cons c cs ih =>
      rw [splitOnto_cons] at h
      split at h
      · next found hfound =>
          cases h
          refine ⟨[], c :: cs, rfl, by simp, hfound, fun s t hnil ht => ?_⟩
          exact absurd (List.append_eq_nil_iff.1 hnil.symm).2 ht
      · next hnone =>
          rcases ih h with ⟨more, rest, rfl, rfl, hrest, hseen⟩
          refine ⟨c :: more, rest, rfl, by simp, hrest, fun s t hmore ht => ?_⟩
          cases s with
          | nil =>
              rw [List.nil_append] at hmore
              rw [← hmore]
              exact hnone
          | cons d s => exact hseen s t (List.cons.inj hmore).2 ht

theorem divided_of_splitOnto (h : splitOnto [] cs = some (left, source)) :
    Divided cs left source := by
  rcases splitOnto_stops h with ⟨more, rest, rfl, hleft, hrest, hseen⟩
  have hmore : left = more := hleft
  subst hmore
  rcases afterSeparator?_eq_some hrest with
    ⟨blanks, before, keyword, after, rfl, hkeyword, hblanks, hbefore, hafter⟩
  refine ⟨⟨blanks ++ [before], keyword, after, by simp, by simp, ?_, hkeyword, hafter⟩, ?_, ?_⟩
  · rw [List.forall_mem_append, List.forall_mem_singleton]
    exact ⟨hblanks, hbefore⟩
  · intro c hc
    rcases List.getLast?_eq_some_iff.1 hc with ⟨s, rfl⟩
    rw [← Bool.not_eq_true]
    intro hblank
    -- With one more blank in front there still is a separator.
    have hsome : afterSeparator? ((c :: blanks ++ [before]) ++ (keyword ++ after :: source)) =
        some source := by
      refine afterSeparator?_append (by simp) ?_ hkeyword hafter source
      rw [List.forall_mem_append, List.forall_mem_cons, List.forall_mem_singleton]
      exact ⟨⟨hblank, hblanks⟩, hbefore⟩
    have hnone := hseen s [c] rfl (by simp)
    rw [List.singleton_append, ← List.cons_append, ← List.singleton_append (x := before),
      ← List.append_assoc, hsome] at hnone
    cases hnone
  · rintro ⟨front, before', keyword', after', back, heq, hkeyword', hbefore', hafter'⟩
    -- The separator in `left` has its last blank from `left`, or from the blanks behind it.
    have hfound {t : List Char} {b : Char} (hleft : left = front ++ before' :: (keyword' ++ t))
        (hsource : ∃ tail, t ++ (blanks ++ before :: (keyword ++ after :: source)) = b :: tail)
        (hb : Text.isBlank b) : False := by
      rcases hsource with ⟨tail, htail⟩
      have hnone := hseen front (before' :: (keyword' ++ t)) hleft (by simp)
      have hsome : afterSeparator? ([before'] ++ (keyword' ++ b :: tail)) = some tail :=
        afterSeparator?_append (by simp) (by simpa using hbefore') hkeyword' hb tail
      rw [List.cons_append, List.append_assoc, htail] at hnone
      cases hnone.symm.trans hsome
    rcases List.eq_nil_or_concat back with rfl | ⟨back, last, rfl⟩
    · have hends : left ++ [' '] = (front ++ before' :: keyword') ++ [after'] := by simpa using heq
      have hleft := (List.append_inj' hends rfl).1
      refine hfound (t := []) (b := (blanks ++ [before]).head (by simp)) (by simpa using hleft)
        ?_ ?_
      · cases blanks with
        | nil => exact ⟨_, rfl⟩
        | cons b blanks => exact ⟨_, rfl⟩
      · cases blanks with
        | nil => exact hbefore
        | cons b blanks => exact hblanks b List.mem_cons_self
    · have hends : left ++ [' '] = (front ++ before' :: (keyword' ++ after' :: back)) ++ [last] := by
        simpa using heq
      have hleft := (List.append_inj' hends rfl).1
      exact hfound (t := after' :: back) hleft ⟨_, rfl⟩ hafter'

/-- A header is split at its first separator. -/
theorem splitOnto_eq_some_iff : splitOnto [] cs = some (left, source) ↔ Divided cs left source := by
  refine ⟨divided_of_splitOnto, ?_⟩
  rintro ⟨⟨lead, keyword, after, rfl, hne, hlead, hkeyword, hafter⟩, hsolid, hfirst⟩
  rw [splitOnto_append fun s t hleft ht =>
    afterSeparator?_eq_none hsolid hfirst hne hlead hleft ht _]
  have hsome : afterSeparator? (lead ++ (keyword ++ after :: source)) = some source :=
    afterSeparator?_append hne hlead hkeyword hafter source
  rcases List.exists_cons_of_ne_nil hne with ⟨b, blanks, rfl⟩
  rw [List.cons_append] at hsome ⊢
  rw [splitOnto_cons, hsome]
  simp

/-! ## Iterators -/

/-- One iterator, or two with a comma between them. -/
theorem readIterators?_eq_some_iff :
    readIterators? cs = some (first, second) ↔
      (∀ c ∈ first, isIteratorChar c) ∧ (∀ cs ∈ second, ∀ c ∈ cs, isIteratorChar c) ∧
        cs = first ++ (second.map (',' :: ·)).getD [] := by
  constructor
  · intro h
    have hsplit := List.takeWhile_append_dropWhile (p := isIteratorChar) (l := cs)
    have htake : ∀ c ∈ cs.takeWhile isIteratorChar, isIteratorChar c = true :=
      List.all_eq_true.1 List.all_takeWhile
    unfold readIterators? at h
    dsimp only at h
    split at h
    · next hdrop =>
        cases h
        rw [hdrop] at hsplit
        exact ⟨htake, by simp, hsplit.symm⟩
    · next more hdrop =>
        split at h
        · next hall =>
            cases h
            rw [hdrop] at hsplit
            refine ⟨htake, ?_, hsplit.symm⟩
            intro cs hcs
            cases hcs
            exact List.all_eq_true.1 hall
        · cases h
    · cases h
  · rintro ⟨hfirst, hsecond, rfl⟩
    cases second with
    | none =>
        rw [Option.map_none, Option.getD_none, List.append_nil]
        exact readIterators?_one hfirst
    | some more => exact readIterators?_two hfirst (hsecond more rfl)

/-- Two commas are one too many. -/
theorem readIterators?_of_commas {s t u : List Char} :
    readIterators? (s ++ ',' :: (t ++ ',' :: u)) = none := by
  rw [Option.eq_none_iff_forall_ne_some]
  rintro ⟨first, second⟩ h
  rcases readIterators?_eq_some_iff.1 h with ⟨hfirst, hsecond, heq⟩
  have hzero {cs : List Char} (h : ∀ c ∈ cs, isIteratorChar c) : cs.count ',' = 0 := by
    rw [List.count_eq_zero]
    intro hmem
    exact (isIteratorChar_iff.1 (h ',' hmem)).1 rfl
  have hcount := congrArg (List.count ',') heq
  rw [List.count_append, List.count_append, hzero hfirst] at hcount
  cases second with
  | none => simp at hcount
  | some more =>
      simp only [Option.map_some, Option.getD_some, List.count_cons_self, hzero (hsecond more rfl),
        List.count_append] at hcount
      omega

/-- The item stands in front of the first comma that only iterators follow. -/
theorem itemOnto_eq_some_iff :
    itemOnto front cs = some (item, first, second) ↔
      ∃ more rest, item = front.reverse ++ more ∧ cs = more ++ ',' :: rest ∧
        readIterators? rest = some (first, second) ∧
        ∀ s t, more = s ++ ',' :: t → readIterators? (t ++ ',' :: rest) = none := by
  constructor
  · intro h
    induction cs generalizing front with
    | nil =>
        rw [itemOnto_nil] at h
        cases h
    | cons c cs ih =>
        rw [itemOnto_cons] at h
        split at h
        · next hread =>
            cases h
            split at hread
            · next hc =>
                refine ⟨[], cs, by simp, by rw [hc, List.nil_append], hread, fun s t hnil => ?_⟩
                simp at hnil
            · cases hread
        · next hnone =>
            rcases ih h with ⟨more, rest, rfl, rfl, hread, hseen⟩
            refine ⟨c :: more, rest, by simp, rfl, hread, fun s t hmore => ?_⟩
            cases s with
            | nil =>
                rcases List.cons.inj hmore with ⟨rfl, rfl⟩
                rwa [if_pos rfl] at hnone
            | cons d s => exact hseen s t (List.cons.inj hmore).2
  · rintro ⟨more, rest, rfl, rfl, hread, hseen⟩
    rw [itemOnto_append hseen, itemOnto_cons, if_pos rfl, hread]
    simp

/-- Nothing but blanks, and at least one, stands behind a comma, and one iterator in front of it. -/
def EndsBlank (cs : List Char) : Prop :=
  ∃ item first blanks, cs = item ++ ',' :: (first ++ ',' :: blanks) ∧
    (∀ c ∈ first, isIteratorChar c) ∧ blanks ≠ [] ∧ ∀ c ∈ blanks, Text.isBlank c

theorem isIteratorChar_of_isBlank (h : Text.isBlank c) : isIteratorChar c := by
  rw [isIteratorChar_iff]
  refine ⟨?_, ?_, ?_⟩
  all_goals
    rintro rfl
    revert h
    decide

/-- The second iterator has blanks and nothing else if the text ends so. -/
theorem itemOnto_endsBlank :
    EndsBlank cs ↔ ∃ item first blanks, itemOnto [] cs = some (item, first, some blanks) ∧
      blanks ≠ [] ∧ ∀ c ∈ blanks, Text.isBlank c := by
  constructor
  · rintro ⟨item, first, blanks, rfl, hfirst, hne, hblanks⟩
    have hread : readIterators? (first ++ ',' :: blanks) = some (first, some blanks) :=
      readIterators?_two hfirst fun c hc => isIteratorChar_of_isBlank (hblanks c hc)
    refine ⟨item, first, blanks, ?_, hne, hblanks⟩
    exact itemOnto_eq_some_iff.2 ⟨item, _, rfl, rfl, hread, fun s t _ => readIterators?_of_commas⟩
  · rintro ⟨item, first, blanks, hitem, hne, hblanks⟩
    rcases itemOnto_eq_some_iff.1 hitem with ⟨more, rest, rfl, rfl, hread, _⟩
    rcases readIterators?_eq_some_iff.1 hread with ⟨hfirst, _, rfl⟩
    exact ⟨_, first, blanks, rfl, hfirst, hne, hblanks⟩

/-! ## Parentheses -/

/-- A blank stands right inside a parenthesis at an end of the text. -/
def Padded (cs : List Char) : Prop :=
  (∃ b rest, cs = '(' :: b :: rest ∧ Text.isBlank b) ∨
    ∃ front b, cs = front ++ [b, ')'] ∧ Text.isBlank b

/-- What is left when the opening parenthesis is taken off. -/
def dropOpening : List Char → List Char
  | '(' :: cs => cs
  | cs => cs

theorem dropParens_eq (cs : List Char) :
    dropParens cs =
      if (dropOpening cs).getLast? = some ')' then (dropOpening cs).dropLast
      else dropOpening cs := by
  rfl

/-- Either the parenthesis is taken off or the text stays as it is. -/
theorem dropOpening_cases (cs : List Char) : cs = '(' :: dropOpening cs ∨ cs = dropOpening cs := by
  unfold dropOpening
  split
  · exact .inl rfl
  · exact .inr rfl

theorem dropParens_cases (cs : List Char) :
    dropOpening cs = dropParens cs ++ [')'] ∨
      dropOpening cs = dropParens cs ∧ (dropOpening cs).getLast? ≠ some ')' := by
  rw [dropParens_eq]
  split
  · next hlast =>
      rcases List.getLast?_eq_some_iff.1 hlast with ⟨front, hfront⟩
      left
      rw [hfront, List.dropLast_concat]
  · next hlast => exact .inr ⟨rfl, hlast⟩

/-- A blank is in front of the rest exactly if it has stood behind the opening parenthesis. -/
theorem head?_dropParens (h : Text.Trimmed cs) (hc : Text.isBlank c) :
    (dropParens cs).head? = some c ↔ ∃ rest, cs = '(' :: c :: rest := by
  have hparen : c ≠ ')' := by
    rintro rfl
    revert hc
    decide
  constructor
  · intro hhead
    rcases List.head?_eq_some_iff.1 hhead with ⟨rest, hrest⟩
    have hopening : ∃ more, dropOpening cs = c :: more := by
      rcases dropParens_cases cs with heq | ⟨heq, _⟩
      · exact ⟨_, by rw [heq, hrest, List.cons_append]⟩
      · exact ⟨_, heq.trans hrest⟩
    rcases hopening with ⟨more, hmore⟩
    rcases dropOpening_cases cs with hcs | hcs
    · exact ⟨more, by rw [hcs, hmore]⟩
    · have hsolid := h.head c (by rw [hcs, hmore]; rfl)
      rw [hc] at hsolid
      cases hsolid
  · rintro ⟨rest, rfl⟩
    have hopening : dropOpening ('(' :: c :: rest) = c :: rest := rfl
    rcases dropParens_cases ('(' :: c :: rest) with heq | ⟨heq, _⟩
    · rw [hopening] at heq
      -- The closing parenthesis is not the blank.
      cases hinner : dropParens ('(' :: c :: rest) with
      | nil =>
          rw [hinner] at heq
          exact absurd (List.cons.inj heq).1 hparen
      | cons d inner =>
          rw [hinner] at heq
          rw [(List.cons.inj heq).1]
          rfl
    · rw [← heq, hopening]
      rfl

/-- A blank is at the end of the rest exactly if it has stood in front of the closing
parenthesis. -/
theorem getLast?_dropParens (h : Text.Trimmed cs) (hc : Text.isBlank c) :
    (dropParens cs).getLast? = some c ↔ ∃ front, cs = front ++ [c, ')'] := by
  have hparen : c ≠ '(' := by
    rintro rfl
    revert hc
    decide
  constructor
  · intro hlast
    rcases List.getLast?_eq_some_iff.1 hlast with ⟨front, hfront⟩
    rcases dropParens_cases cs with heq | ⟨heq, _⟩
    · rw [hfront, List.append_assoc] at heq
      rcases dropOpening_cases cs with hcs | hcs
      · exact ⟨'(' :: front, by rw [hcs, heq]; rfl⟩
      · exact ⟨front, by rw [hcs, heq]; rfl⟩
    · -- Without a closing parenthesis the blank would be at the end of the text.
      have hend : cs.getLast? = some c := by
        rcases dropOpening_cases cs with hcs | hcs
        · rw [hcs, heq, List.getLast?_cons, hlast]
          rfl
        · rw [hcs, heq, hlast]
      have hsolid := h.last c hend
      rw [hc] at hsolid
      cases hsolid
  · rintro ⟨front, rfl⟩
    have hopening : ∃ more, dropOpening (front ++ [c, ')']) = more ++ [c] ++ [')'] := by
      rcases dropOpening_cases (front ++ [c, ')']) with hcs | hcs
      · cases front with
        | nil => exact absurd (List.cons.inj hcs).1 hparen
        | cons d front => exact ⟨front, by simpa using (List.cons.inj hcs).2.symm⟩
      · exact ⟨front, by simpa using hcs.symm⟩
    rcases hopening with ⟨more, hmore⟩
    rw [dropParens_eq, hmore, List.getLast?_concat, if_pos rfl, List.dropLast_concat,
      List.getLast?_concat]

/-- Between its parentheses a trimmed text is trimmed, unless it is padded there. -/
theorem trimmed_dropParens_iff (h : Text.Trimmed cs) :
    Text.Trimmed (dropParens cs) ↔ ¬Padded cs := by
  constructor
  · rintro htrimmed (⟨b, rest, hcs, hb⟩ | ⟨front, b, hcs, hb⟩)
    · have hsolid := htrimmed.head b ((head?_dropParens h hb).2 ⟨rest, hcs⟩)
      rw [hb] at hsolid
      cases hsolid
    · have hsolid := htrimmed.last b ((getLast?_dropParens h hb).2 ⟨front, hcs⟩)
      rw [hb] at hsolid
      cases hsolid
  · intro hnot
    refine ⟨fun b hb => ?_, fun b hb => ?_⟩
    · rw [← Bool.not_eq_true]
      intro hblank
      rcases (head?_dropParens h hblank).1 hb with ⟨rest, hcs⟩
      exact hnot (.inl ⟨b, rest, hcs, hblank⟩)
    · rw [← Bool.not_eq_true]
      intro hblank
      rcases (getLast?_dropParens h hblank).1 hb with ⟨front, hcs⟩
      exact hnot (.inr ⟨front, b, hcs, hblank⟩)

/-! ## The parts of a header -/

/-- No part of the header has a blank at an end, and a second iterator is not empty. -/
structure Normal (loop : LoopHeader) : Prop where
  source : Text.Trimmed loop.source.toList
  item : Text.Trimmed loop.item.toList
  iterator1 : ∀ name ∈ loop.iterator1, Text.Trimmed name.toList
  iterator2 : ∀ name ∈ loop.iterator2, Text.Trimmed name.toList ∧ name ≠ ""

/-- A second iterator is trimmed; it is empty if there is nothing but blanks to make it of. -/
theorem secondName_eq_empty_iff :
    (second.filter (· ≠ [])).map (fun cs => String.ofList (Text.trim cs)) = some "" ↔
      ∃ blanks, second = some blanks ∧ blanks ≠ [] ∧ ∀ c ∈ blanks, Text.isBlank c := by
  cases second with
  | none => simp
  | some cs =>
      by_cases hne : cs = []
      · simp [hne]
      · simp [hne, Text.trim_eq_nil_iff]

theorem trimmed_ofList_trim (cs : List Char) :
    Text.Trimmed (String.ofList (Text.trim cs)).toList := by
  rw [String.toList_ofList]
  exact Text.trimmed_trim cs

/-- The source and the iterators of a header have no blank at an end. Nor has the item, but for a
header without iterators whose left side is padded inside its parentheses; and a second iterator is
empty only where nothing but blanks stands behind the second comma. -/
theorem parse?_parts (h : parse? header = some loop) :
    ∃ left source, Divided header.toList left source ∧
      Text.Trimmed loop.source.toList ∧
      (∀ name ∈ loop.iterator1, Text.Trimmed name.toList) ∧
      (∀ name ∈ loop.iterator2, Text.Trimmed name.toList) ∧
      (Text.Trimmed loop.item.toList ↔ ¬(loop.iterator1 = none ∧ Padded (Text.trim left))) ∧
      (loop.iterator2 = some "" ↔ EndsBlank (dropParens (Text.trim left))) := by
  unfold parse? at h
  split at h
  · cases h
  · next left source hsplit =>
      refine ⟨left, source, divided_of_splitOnto hsplit, ?_⟩
      rw [itemOnto_endsBlank]
      dsimp only at h
      split at h
      · next hitem =>
          cases h
          refine ⟨trimmed_ofList_trim source, by simp, by simp, ?_, by simp [hitem]⟩
          rw [String.toList_ofList, trimmed_dropParens_iff (Text.trimmed_trim left)]
          simp
      · next item first second hitem =>
          cases h
          refine ⟨trimmed_ofList_trim source, ?_, ?_, ?_, ?_⟩
          · intro name hname
            cases hname
            exact trimmed_ofList_trim first
          · intro name hname
            rcases Option.map_eq_some_iff.1 hname with ⟨cs, _, rfl⟩
            exact trimmed_ofList_trim cs
          · exact iff_of_true (trimmed_ofList_trim item) (by simp)
          · rw [secondName_eq_empty_iff]
            simp [hitem]

/-- Two iterators with blanks around them, and commas of the item's own in front. -/
theorem parse?_parts_blanks :
    ∃ loop left source, parse? "( [a, b] , i , )  in  xs " = some loop ∧
      Divided "( [a, b] , i , )  in  xs ".toList left source ∧
      loop.item = "[a, b]" ∧ loop.iterator1 = some "i" ∧ loop.source = "xs" ∧
      loop.iterator2 = some "" ∧ EndsBlank (dropParens (Text.trim left)) := by
  have hparse : parse? "( [a, b] , i , )  in  xs " =
      some { source := "xs", item := "[a, b]", iterator1 := some "i", iterator2 := some "" } := by
    decide +kernel
  rcases parse?_parts hparse with ⟨left, source, hdivided, _, _, _, _, hsecond⟩
  exact ⟨_, left, source, hparse, hdivided, rfl, rfl, rfl, rfl, hsecond.1 rfl⟩

/-- Blanks inside the parentheses stay, and blanks behind a comma make an iterator. -/
theorem parse?_not_normal :
    (∃ loop, parse? "( a ) in b" = some loop ∧ loop.item = " a " ∧ ¬loop.Normal) ∧
      ∃ loop, parse? "(a, b, ) in c" = some loop ∧ loop.iterator2 = some "" ∧ ¬loop.Normal := by
  have hitem : parse? "( a ) in b" =
      some { source := "b", item := " a ", iterator1 := none, iterator2 := none } := by
    decide +kernel
  have hiterator : parse? "(a, b, ) in c" =
      some { source := "c", item := "a", iterator1 := some "b", iterator2 := some "" } := by
    decide +kernel
  refine ⟨⟨_, hitem, rfl, fun h => ?_⟩, ⟨_, hiterator, rfl, fun h => ?_⟩⟩
  · have hhead := h.item.head ' ' (by decide)
    revert hhead
    decide
  · exact (h.iterator2 "" rfl).2 rfl

end LoopHeader
end TemplateMarkup
