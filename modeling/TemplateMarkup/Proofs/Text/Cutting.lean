import TemplateMarkup.LineIndex
import TemplateMarkup.Span

/-!
# Cutting text

The functions that cut a text look for a mark, or count bytes. This file says what they find
without saying how they look:

* `Text.breakOn?_eq_some_iff`, `Text.breakWithin?_eq_some_iff` — a text is cut at its first mark,
* `Text.breakOn?_eq_none_iff` — a text is not cut only if the mark does not occur in it,
* `Text.splitAll_append`, `Text.splitAll_of_not_mem` — a text is cut at each of its marks,
* `Text.splitBytes?_byteLength` — as many bytes as a text has end where the text ends,
* `Text.Trimmed.trim_eq` — trimming takes off the blanks around a text,
* `Text.letter_of_isAlpha`, `Text.toNat_lt_of_isAlphanum` — letters and digits are ASCII,
* `Span.Covers source span inside` — `span` is where `inside` stands in `source`; such a span has
  a slice, and both its ends have a line and a column.
-/

namespace TemplateMarkup

namespace Text

variable {mark front back before rest cs : List Char}

/-! ## The first mark -/

theorem after?_eq_some_iff : after? mark cs = some rest ↔ cs = mark ++ rest := by
  constructor
  · exact after?_eq_some
  · rintro rfl
    exact after?_append mark rest

theorem after?_eq_none_iff : after? mark cs = none ↔ ¬mark <+: cs := by
  rw [Option.eq_none_iff_forall_ne_some]
  constructor
  · intro h hleads
    rcases hleads with ⟨rest, rfl⟩
    exact h rest (after?_append mark rest)
  · intro h rest hrest
    exact h ⟨rest, (after?_eq_some hrest).symm⟩

/-- The mark behind `before` is the first one: it does not occur further in front. -/
def FirstAt (mark before : List Char) : Prop :=
  ∀ front back, before ++ mark = front ++ mark ++ back → front = before

theorem firstAt_nil (mark : List Char) : FirstAt mark [] := by
  intro front back h
  have hlength := congrArg List.length h
  simp only [List.nil_append, List.length_append] at hlength
  exact List.eq_nil_of_length_eq_zero (by omega)

theorem firstAt_cons {c : Char} (hstart : ∀ rest, c :: before ++ mark ≠ mark ++ rest)
    (h : FirstAt mark before) : FirstAt mark (c :: before) := by
  intro front back heq
  cases front with
  | nil => exact absurd (by simpa using heq) (hstart back)
  | cons d front =>
      rw [List.cons_append, List.cons_append, List.cons_append, List.cons.injEq] at heq
      rw [heq.1, h front back heq.2]

theorem FirstAt.tail {c : Char} (h : FirstAt mark (c :: before)) : FirstAt mark before := by
  intro front back heq
  have hcons := h (c :: front) back (by simp [heq])
  exact (List.cons.inj hcons).2

theorem firstAt_singleton {m : Char} : FirstAt [m] before ↔ m ∉ before := by
  constructor
  · intro h hmem
    -- An earlier mark would stand in front of what is left of `before`.
    rcases List.append_of_mem hmem with ⟨front, back, rfl⟩
    have heq := h front (back ++ [m]) (by simp)
    simp at heq
  · intro h front back heq
    rcases List.eq_nil_or_concat back with rfl | ⟨back, last, rfl⟩
    · rw [List.append_nil] at heq
      exact (List.append_cancel_right heq).symm
    · rw [List.concat_eq_append, ← List.append_assoc] at heq
      have hbefore := (List.append_inj' heq rfl).1
      exact absurd (by simp [hbefore]) h

/-- Whether the mark behind `before` is the first one has nothing to do with what follows it. -/
theorem FirstAt.length_le (h : FirstAt mark before)
    (heq : before ++ mark ++ rest = front ++ mark ++ back) : before.length ≤ front.length := by
  refine Nat.le_of_not_lt fun hlt => ?_
  -- A mark further in front is short enough to lie in `before ++ mark`.
  have hle : (front ++ mark).length ≤ (before ++ mark).length := by
    rw [List.length_append, List.length_append]
    omega
  have hprefix : front ++ mark <+: before ++ mark :=
    List.prefix_of_prefix_length_le ⟨back, heq.symm⟩ (List.prefix_append _ _) hle
  rcases hprefix with ⟨more, hmore⟩
  rw [h front more hmore.symm] at hlt
  exact Nat.lt_irrefl _ hlt

/-- Behind the first mark stands all that stands behind any other one. -/
theorem FirstAt.rest_eq (h : FirstAt mark before)
    (heq : before ++ mark ++ rest = front ++ mark ++ back) : ∃ more, rest = more ++ back := by
  have hle : (before ++ mark).length ≤ (front ++ mark).length := by
    have hlength := h.length_le heq
    rw [List.length_append, List.length_append]
    omega
  have hprefix : before ++ mark <+: front ++ mark :=
    List.prefix_of_prefix_length_le (List.prefix_append _ rest) ⟨back, heq.symm⟩ hle
  rcases hprefix with ⟨more, hmore⟩
  rw [← hmore, List.append_assoc (before ++ mark)] at heq
  exact ⟨more, List.append_cancel_left heq⟩

theorem FirstAt.eq_nil (h : FirstAt mark before) (hmark : before ++ mark ++ rest = mark ++ cs) :
    before = [] := by
  have hle : before.length ≤ ([] : List Char).length := h.length_le hmark
  exact List.eq_nil_of_length_eq_zero (Nat.le_zero.1 hle)

theorem breakOnto_eq_some_iff :
    breakOnto mark front cs = some (before, rest) ↔
      ∃ more, before = front.reverse ++ more ∧ cs = more ++ mark ++ rest ∧ FirstAt mark more := by
  induction cs generalizing front with
  | nil =>
      simp only [breakOnto, Option.map_eq_some_iff, Prod.mk.injEq]
      constructor
      · rintro ⟨rest', hafter, rfl, rfl⟩
        exact ⟨[], by simp, by simpa using after?_eq_some hafter, firstAt_nil mark⟩
      · rintro ⟨more, rfl, hcs, _⟩
        -- An empty text has only an empty mark in it.
        rcases List.append_eq_nil_iff.1 hcs.symm with ⟨hmore, rfl⟩
        rcases List.append_eq_nil_iff.1 hmore with ⟨rfl, rfl⟩
        exact ⟨[], rfl, by simp, rfl⟩
  | cons c cs ih =>
      cases hafter : after? mark (c :: cs) with
      | some behind =>
          have hcs := after?_eq_some hafter
          simp only [breakOnto, hafter, Option.some.injEq, Prod.mk.injEq]
          constructor
          · rintro ⟨rfl, rfl⟩
            exact ⟨[], by simp, by simpa using hcs, firstAt_nil mark⟩
          · rintro ⟨more, rfl, hmore, hfirst⟩
            have hnil := hfirst.eq_nil (hmore.symm.trans hcs)
            subst hnil
            rw [hcs, List.nil_append] at hmore
            exact ⟨by simp, List.append_cancel_left hmore⟩
      | none =>
          have hnone : ∀ behind, c :: cs ≠ mark ++ behind := by
            intro behind heq
            rw [after?_eq_some_iff.2 heq] at hafter
            cases hafter
          simp only [breakOnto, hafter]
          rw [ih]
          constructor
          · rintro ⟨more, rfl, rfl, hfirst⟩
            refine ⟨c :: more, by simp, by simp, firstAt_cons ?_ hfirst⟩
            intro behind heq
            refine hnone (behind ++ rest) ?_
            rw [← List.append_assoc, ← heq]
            simp
          · rintro ⟨more, rfl, hmore, hfirst⟩
            cases more with
            | nil => exact absurd (by simpa using hmore) (hnone rest)
            | cons d more =>
                rw [List.cons_append, List.cons_append, List.cons.injEq] at hmore
                rcases hmore with ⟨rfl, rfl⟩
                exact ⟨more, by simp, rfl, hfirst.tail⟩

/-- A text is cut at its first mark. -/
theorem breakOn?_eq_some_iff :
    breakOn? mark cs = some (before, rest) ↔
      cs = before ++ mark ++ rest ∧ FirstAt mark before := by
  unfold breakOn?
  rw [breakOnto_eq_some_iff]
  constructor
  · rintro ⟨more, rfl, hcs, hfirst⟩
    exact ⟨by simpa using hcs, by simpa using hfirst⟩
  · rintro ⟨hcs, hfirst⟩
    exact ⟨before, by simp, hcs, hfirst⟩

theorem breakOnto_eq_none_iff : breakOnto mark front cs = none ↔ ¬mark <:+: cs := by
  induction cs generalizing front with
  | nil =>
      rw [breakOnto, Option.map_eq_none_iff, after?_eq_none_iff, List.prefix_nil, List.infix_nil]
  | cons c cs ih =>
      rw [breakOnto, List.infix_cons_iff]
      split
      · next rest hrest =>
          have hleads : mark <+: c :: cs := ⟨rest, (after?_eq_some hrest).symm⟩
          simp [hleads]
      · next hnone =>
          have hleads := after?_eq_none_iff.1 hnone
          simp [hleads, ih]

/-- A text is not cut only if the mark does not occur in it. -/
theorem breakOn?_eq_none_iff : breakOn? mark cs = none ↔ ¬mark <:+: cs :=
  breakOnto_eq_none_iff

theorem breakOn?_of_not_mem {m : Char} (h : m ∉ cs) : breakOn? [m] cs = none :=
  breakOn?_eq_none_iff.2 fun hoccurs => h (hoccurs.subset (List.mem_singleton_self m))

theorem breakWithinOnto_eq_some_iff {mark : Char} {limit : Nat} :
    breakWithinOnto mark limit front cs = some (before, rest) ↔
      ∃ more, before = front.reverse ++ more ∧ cs = more ++ mark :: rest ∧ mark ∉ more ∧
        byteLength more ≤ limit := by
  induction cs generalizing front limit with
  | nil => simp [breakWithinOnto]
  | cons c cs ih =>
      by_cases hmark : c = mark
      · subst hmark
        simp only [breakWithinOnto, if_true, Option.some.injEq, Prod.mk.injEq]
        constructor
        · rintro ⟨rfl, rfl⟩
          exact ⟨[], by simp, by simp, by simp, by simp⟩
        · rintro ⟨more, rfl, hmore, hnot, _⟩
          cases more with
          | nil => simpa using hmore
          | cons d more =>
              rw [List.cons_append, List.cons.injEq] at hmore
              exact absurd (by simp [hmore.1]) hnot
      · by_cases hlimit : c.utf8Size ≤ limit
        · simp only [breakWithinOnto, hmark, if_false, hlimit, if_true]
          rw [ih]
          constructor
          · rintro ⟨more, rfl, rfl, hnot, hbytes⟩
            refine ⟨c :: more, by simp, by simp, ?_, ?_⟩
            · simpa [hnot] using Ne.symm hmark
            · simp only [byteLength_cons]
              omega
          · rintro ⟨more, rfl, hmore, hnot, hbytes⟩
            cases more with
            | nil => exact absurd (List.cons.inj hmore).1 hmark
            | cons d more =>
                rw [List.cons_append, List.cons.injEq] at hmore
                rcases hmore with ⟨rfl, rfl⟩
                simp only [List.mem_cons, not_or] at hnot
                simp only [byteLength_cons] at hbytes
                exact ⟨more, by simp, rfl, hnot.2, by omega⟩
        · simp only [breakWithinOnto, hmark, if_false, hlimit, reduceCtorEq, false_iff]
          rintro ⟨more, rfl, hmore, _, hbytes⟩
          cases more with
          | nil => exact hmark (List.cons.inj hmore).1
          | cons d more =>
              rw [List.cons_append, List.cons.injEq] at hmore
              rw [← hmore.1, byteLength_cons] at hbytes
              omega

/-- A text is cut at its first mark, if that is not too far behind. -/
theorem breakWithin?_eq_some_iff {mark : Char} {limit : Nat} :
    breakWithin? mark limit cs = some (before, rest) ↔
      cs = before ++ mark :: rest ∧ mark ∉ before ∧ byteLength before ≤ limit := by
  unfold breakWithin?
  rw [breakWithinOnto_eq_some_iff]
  constructor
  · rintro ⟨more, rfl, hcs, hnot, hbytes⟩
    exact ⟨by simpa using hcs, by simpa using hnot, by simpa using hbytes⟩
  · rintro ⟨hcs, hnot, hbytes⟩
    exact ⟨before, by simp, hcs, hnot, hbytes⟩

/-! ## Every mark -/

/-- A character other than the mark belongs to the first part. -/
theorem splitAll_cons_of_ne {c mark : Char} {part : List Char} {parts : List (List Char)}
    (hc : c ≠ mark) (h : splitAll mark cs = part :: parts) :
    splitAll mark (c :: cs) = (c :: part) :: parts := by
  unfold splitAll at h ⊢
  rw [List.foldr_cons, if_neg hc, h]

theorem splitAll_of_not_mem {mark : Char} (h : mark ∉ cs) : splitAll mark cs = [cs] := by
  induction cs with
  | nil => rfl
  | cons c cs ih =>
      rw [List.mem_cons, not_or] at h
      exact splitAll_cons_of_ne (Ne.symm h.1) (ih h.2)

theorem splitAll_append {mark : Char} (h : mark ∉ before) (rest : List Char) :
    splitAll mark (before ++ mark :: rest) = before :: splitAll mark rest := by
  induction before with
  | nil => simp [splitAll]
  | cons c before ih =>
      rw [List.mem_cons, not_or] at h
      exact splitAll_cons_of_ne (Ne.symm h.1) (ih h.2)

/-! ## Counting bytes -/

theorem byteLength_pos (h : cs ≠ []) : 0 < byteLength cs := by
  cases cs with
  | nil => exact absurd rfl h
  | cons c cs =>
      rw [byteLength_cons]
      exact Nat.add_pos_left (Char.utf8Size_pos c) _

theorem eq_nil_of_byteLength (h : byteLength cs = 0) : cs = [] := by
  cases cs with
  | nil => rfl
  | cons c cs => exact absurd h (Nat.ne_of_gt (byteLength_pos (by simp)))

theorem splitBytes?_byteLength (front cs rest : List Char) :
    splitBytes? (byteLength cs) front (cs ++ rest) = some (front.reverse ++ cs, rest) := by
  induction cs generalizing front with
  | nil =>
      cases rest with
      | nil => simp [splitBytes?]
      | cons c rest => simp [splitBytes?]
  | cons c cs ih =>
      have hpos := Char.utf8Size_pos c
      have hne : byteLength (c :: cs) ≠ 0 := by
        rw [byteLength_cons]
        omega
      have hle : c.utf8Size ≤ byteLength (c :: cs) := by
        rw [byteLength_cons]
        omega
      have hsub : byteLength (c :: cs) - c.utf8Size = byteLength cs := by
        rw [byteLength_cons]
        omega
      rw [List.cons_append, splitBytes?, if_neg hne, if_pos hle, hsub, ih]
      simp

/-! ## Blanks -/

/-- A text that neither starts nor ends with a blank. -/
structure Trimmed (cs : List Char) : Prop where
  head : ∀ c ∈ cs.head?, isBlank c = false
  last : ∀ c ∈ cs.getLast?, isBlank c = false

theorem dropWhile_isBlank (h : ∀ c ∈ cs.head?, isBlank c = false) :
    cs.dropWhile isBlank = cs := by
  cases cs with
  | nil => rfl
  | cons c cs => simp [h c rfl]

/-- Trimming takes off the blanks around a text. -/
theorem Trimmed.trim_eq (h : Trimmed cs) (hfront : ∀ c ∈ front, isBlank c = true)
    (hback : ∀ c ∈ back, isBlank c = true) : trim (front ++ cs ++ back) = cs := by
  have hlast : ∀ c ∈ cs.reverse.head?, isBlank c = false := by
    rw [List.head?_reverse]
    exact h.last
  have hdrop : ((cs ++ back).dropWhile isBlank).reverse.dropWhile isBlank = cs.reverse := by
    cases cs with
    | nil =>
        have hnil : (back ++ []).dropWhile isBlank = [] := List.dropWhile_append_of_pos hback
        rw [List.append_nil] at hnil
        rw [List.nil_append, hnil]
        rfl
    | cons c cs =>
        have hhead : ∀ d ∈ (c :: cs ++ back).head?, isBlank d = false := h.head
        rw [dropWhile_isBlank hhead, List.reverse_append,
          List.dropWhile_append_of_pos (by simpa using hback), dropWhile_isBlank hlast]
  rw [trim, List.append_assoc, List.dropWhile_append_of_pos hfront, hdrop, List.reverse_reverse]

theorem Trimmed.trim_append (h : Trimmed cs) (hfront : ∀ c ∈ front, isBlank c = true) :
    trim (front ++ cs) = cs := by
  have heq : trim (front ++ cs ++ []) = cs := h.trim_eq hfront (by simp)
  rwa [List.append_nil] at heq

theorem Trimmed.trim_self (h : Trimmed cs) : trim cs = cs :=
  h.trim_append (List.forall_mem_nil _)

/-! ## Letters and digits -/

theorem range_of_le {c : Char} {low high : UInt32} (h : low ≤ c.val ∧ c.val ≤ high) :
    low.toNat ≤ c.toNat ∧ c.toNat ≤ high.toNat :=
  ⟨UInt32.le_iff_toNat_le.1 h.1, UInt32.le_iff_toNat_le.1 h.2⟩

theorem range_of_and {c : Char} {low high : UInt32}
    (h : (decide (low ≤ c.val) && decide (c.val ≤ high)) = true) :
    low.toNat ≤ c.toNat ∧ c.toNat ≤ high.toNat := by
  rw [Bool.and_eq_true, decide_eq_true_eq, decide_eq_true_eq] at h
  exact range_of_le h

theorem letter_of_isAlpha {c : Char} (h : c.isAlpha = true) :
    (65 ≤ c.toNat ∧ c.toNat ≤ 90) ∨ (97 ≤ c.toNat ∧ c.toNat ≤ 122) := by
  rcases Bool.or_eq_true_iff.1 h with hupper | hlower
  · exact .inl (range_of_le (of_decide_eq_true hupper))
  · exact .inr (range_of_and hlower)

theorem toNat_lt_of_isAlphanum {c : Char} (h : c.isAlphanum = true) : c.toNat < 128 := by
  rcases Bool.or_eq_true_iff.1 h with hletter | hdigit
  · have hrange := letter_of_isAlpha hletter
    omega
  · have hrange : 48 ≤ c.toNat ∧ c.toNat ≤ 57 := range_of_and hdigit
    omega

end Text

/-! ## Spans in a source -/

namespace Span

variable {source : String} {span : Span} {inside : List Char}

/-- `span` is the place of `inside` in `source`. -/
def Covers (source : String) (span : Span) (inside : List Char) : Prop :=
  ∃ front back, source.toList = front ++ inside ++ back ∧
    span = ⟨Text.byteLength front, Text.byteLength front + Text.byteLength inside⟩

theorem Covers.slice?_eq (h : Covers source span inside) :
    span.slice? source = some (String.ofList inside) := by
  rcases h with ⟨front, back, hsource, rfl⟩
  have hfront := Text.splitBytes?_byteLength [] front (inside ++ back)
  have hinside := Text.splitBytes?_byteLength [] inside back
  simp only [List.reverse_nil, List.nil_append] at hfront hinside
  rw [slice?, sliceChars?, hsource, List.append_assoc]
  simp [hfront, hinside]

theorem Covers.start_le (h : Covers source span inside) : span.start ≤ span.stop := by
  rcases h with ⟨front, back, _, rfl⟩
  exact Nat.le_add_right _ _

theorem Covers.start_lt (h : Covers source span inside) (hne : inside ≠ []) :
    span.start < span.stop := by
  rcases h with ⟨front, back, _, rfl⟩
  exact Nat.lt_add_of_pos_right (Text.byteLength_pos hne)

theorem Covers.stop_le (h : Covers source span inside) :
    span.stop ≤ Text.byteLength source.toList := by
  rcases h with ⟨front, back, hsource, rfl⟩
  rw [hsource, Text.byteLength_append, Text.byteLength_append]
  exact Nat.le_add_right _ _

/-- What has as many bytes as the source is the whole source. -/
theorem Covers.eq_all (h : Covers source span inside)
    (hbytes : Text.byteLength inside = Text.byteLength source.toList) :
    inside = source.toList ∧ span = ⟨0, Text.byteLength source.toList⟩ := by
  rcases h with ⟨front, back, hsource, rfl⟩
  have hsum := hbytes
  rw [hsource, Text.byteLength_append, Text.byteLength_append] at hsum
  have hfront : front = [] := Text.eq_nil_of_byteLength (by omega)
  have hback : back = [] := Text.eq_nil_of_byteLength (by omega)
  subst hfront hback
  refine ⟨by simpa using hsource.symm, ?_⟩
  rw [hbytes]
  simp

end Span

theorem LineIndex.isSome_lineCol? {source : String} {offset : Nat}
    (h : offset ≤ Text.byteLength source.toList) :
    ((LineIndex.ofText source).lineCol? offset).isSome := by
  have hnot : ¬(LineIndex.ofText source).size < offset := Nat.not_lt_of_le h
  simp [lineCol?, hnot]

end TemplateMarkup
