import TemplateMarkup.Proofs.Expression.MemberPath

/-!
# Paths that cannot be split

The search for the last bracket of a path starts behind the first character, and takes no notice of
brackets in quoted strings. Where it finds none in a path that ends in a bracket, the key starts one
byte into the path. This file defines:

* `MemberPath.Search.Step` — the ways in which the search reads a character,
* `MemberPath.Opens` — a bracket opens outside all quoted strings,
* `MemberPath.Uncuttable`, `MemberPath.Unassignable` — a path whose key would start inside its
  first character,

and shows that splitting fails for these paths and no others (`MemberPath.parse_eq_error_iff`).
-/

namespace TemplateMarkup
namespace MemberPath

/-! ## The steps of the search -/

namespace Search

/-- The ways in which the search reads a character. -/
inductive Step (s : Search) : Char → Search → Prop
  | inside {c mark : Char} (hs : s.quote = some mark) :
      Step s c { s.keep c with quote := if c = mark then none else some mark }
  | quote {c : Char} (hs : s.quote = none) (hc : c = '"' ∨ c = '\'') :
      Step s c { s.keep c with quote := some c }
  | enter (hs : s.quote = none) (hdepth : s.depth = 0) :
      Step s '['
        { s with front := '[' :: s.front, depth := 1, object := some s.front, inside := [] }
  | deepen (hs : s.quote = none) (hdepth : s.depth ≠ 0) :
      Step s '[' { s.keep '[' with depth := s.depth + 1 }
  | leave (hs : s.quote = none) (hdepth : s.depth ≤ 1) :
      Step s ']' { s with front := ']' :: s.front, depth := 0 }
  | rise (hs : s.quote = none) (hdepth : 1 < s.depth) :
      Step s ']' { s.keep ']' with depth := s.depth - 1 }
  | plain {c : Char} (hs : s.quote = none) (hc : c ∉ marks) : Step s c (s.keep c)

theorem step_step (s : Search) (c : Char) : Step s c (s.step c) := by
  unfold step
  split
  · next mark hs => exact .inside hs
  · next hs =>
      split
      · next hc => exact .quote hs hc
      · next hquote =>
          split
          · next hc =>
              subst hc
              split
              · next hdepth => exact .enter hs hdepth
              · next hdepth => exact .deepen hs hdepth
          · next hopen =>
              split
              · next hc =>
                  subst hc
                  split
                  · next hdepth => exact .leave hs hdepth
                  · next hdepth => exact .rise hs (Nat.not_le.1 hdepth)
              · next hclose =>
                  rw [not_or] at hquote
                  exact .plain hs (by simp [marks, hquote, hopen, hclose])

end Search

/-! ## Brackets that open -/

/-- The mark that ends the string being read, behind `c`. -/
def quoting (quote : Option Char) (c : Char) : Option Char :=
  match quote with
  | some mark => if c = mark then none else some mark
  | none => if c = '"' ∨ c = '\'' then some c else none

/-- A bracket opens in the text, and in none of its quoted strings. -/
def Opens (quote : Option Char) (cs : List Char) : Prop :=
  ∃ front back, cs = front ++ '[' :: back ∧ front.foldl quoting quote = none

theorem opens_cons {quote : Option Char} {c : Char} {cs : List Char} :
    Opens quote (c :: cs) ↔ (c = '[' ∧ quote = none) ∨ Opens (quoting quote c) cs := by
  constructor
  · rintro ⟨front, back, heq, hquote⟩
    cases front with
    | nil =>
        cases heq
        exact .inl ⟨rfl, hquote⟩
    | cons d front =>
        cases heq
        exact .inr ⟨front, back, rfl, hquote⟩
  · rintro (⟨rfl, hquote⟩ | ⟨front, back, rfl, hquote⟩)
    · exact ⟨[], cs, rfl, hquote⟩
    · exact ⟨c :: front, back, rfl, hquote⟩

namespace Search

theorem quote_step (s : Search) (c : Char) : (s.step c).quote = quoting s.quote c := by
  have hstep := s.step_step c
  generalize s.step c = next at hstep ⊢
  cases hstep with
  | inside hs => simp [quoting, hs]
  | quote hs hc => simp [quoting, hs, hc]
  | enter hs hdepth => simp [quoting, hs]
  | deepen hs hdepth => simp [quoting, hs, keep]
  | leave hs hdepth => simp [quoting, hs]
  | rise hs hdepth => simp [quoting, hs, keep]
  | plain hs hc => simp [quoting, hs, keep, (plain_of_not_mem hc).1]

/-- Only a bracket outside quoted strings is found while none is open. -/
theorem object_step {s : Search} (hdepth : s.depth = 0) (hobject : s.object = none) (c : Char) :
    (c = '[' ∧ s.quote = none ∧ (s.step c).object ≠ none) ∨
      (¬(c = '[' ∧ s.quote = none) ∧ (s.step c).object = none ∧ (s.step c).depth = 0) := by
  have hstep := s.step_step c
  generalize s.step c = next at hstep ⊢
  cases hstep with
  | inside hs => exact .inr ⟨by simp [hs], hobject, hdepth⟩
  | quote hs hc =>
      refine .inr ⟨?_, hobject, hdepth⟩
      rcases hc with rfl | rfl
      · simp
      · simp
  | enter hs _ => exact .inl ⟨rfl, hs, by simp⟩
  | deepen hs hne => exact absurd hdepth hne
  | leave hs _ => exact .inr ⟨by simp, hobject, rfl⟩
  | rise hs hmore => exact .inr ⟨by simp, hobject, by simp [hdepth]⟩
  | plain hs hc => exact .inr ⟨fun heq => (plain_of_not_mem hc).2.1 heq.1, hobject, hdepth⟩

/-- What is found is not lost again. -/
theorem object_foldl {s : Search} (h : s.object ≠ none) (cs : List Char) :
    (cs.foldl step s).object ≠ none := by
  induction cs generalizing s with
  | nil => exact h
  | cons c cs ih =>
      refine ih ?_
      have hstep := s.step_step c
      generalize s.step c = next at hstep ⊢
      cases hstep with
      | enter => simp
      | inside | quote | deepen | leave | rise | plain => exact h

theorem object_eq_none_iff {s : Search} (hdepth : s.depth = 0) (hobject : s.object = none)
    (cs : List Char) : (cs.foldl step s).object = none ↔ ¬Opens s.quote cs := by
  induction cs generalizing s with
  | nil => simp [hobject, Opens]
  | cons c cs ih =>
      rw [List.foldl_cons, opens_cons, not_or]
      rcases object_step hdepth hobject c with ⟨hc, hquote, hfound⟩ | ⟨hc, hnone, hzero⟩
      · have hkept := object_foldl hfound cs
        exact ⟨fun hnone => absurd hnone hkept, fun hnot => absurd ⟨hc, hquote⟩ hnot.1⟩
      · rw [ih hzero hnone, quote_step]
        simp [hc]

end Search

/-! ## Failing -/

/-- The path `first :: rest` ends in a bracket, but has none that opens, the first character and
quoted strings apart; and the first character is longer than one byte. -/
structure Uncuttable (first : Char) (rest : List Char) : Prop where
  opens : '[' ∈ first :: rest
  closes : (first :: rest).getLast? = some ']'
  quoted : ¬Opens none rest
  long : 1 < first.utf8Size

theorem splitBracket_eq_error_iff {first : Char} {rest : List Char} {e : Error} :
    splitBracket (first :: rest) = .error e ↔ ¬Opens none rest ∧ 1 < first.utf8Size := by
  have hfound : (rest.foldl Search.step { front := [first] }).object = none ↔ ¬Opens none rest :=
    Search.object_eq_none_iff rfl rfl rest
  have hsize : ¬first.utf8Size = 1 ↔ 1 < first.utf8Size := by
    have hpos := first.utf8Size_pos
    omega
  rw [splitBracket, ← hfound, ← hsize]
  cases hobject : (rest.foldl Search.step { front := [first] }).object with
  | some object => simp
  | none => simp

/-- A path that cannot be split, so that nothing can be assigned to it. -/
def Unassignable (path : String) : Prop :=
  ∃ first rest, Text.trim path.toList = first :: rest ∧ Uncuttable first rest

/-- Splitting a path fails only if the key would start inside the first character. -/
theorem parse_eq_error_iff {path : String} {e : Error} :
    parse path = .error e ↔ Unassignable path := by
  rw [parse, Unassignable]
  split
  · next hbracket =>
      rw [List.contains_iff_mem] at hbracket
      cases hcs : Text.trim path.toList with
      | nil => simp [hcs] at hbracket
      | cons first rest =>
          rw [hcs] at hbracket
          rw [splitBracket_eq_error_iff]
          constructor
          · rintro ⟨hquoted, hlong⟩
            exact ⟨first, rest, rfl, hbracket.1, hbracket.2, hquoted, hlong⟩
          · rintro ⟨_, _, heq, h⟩
            cases heq
            exact ⟨h.quoted, h.long⟩
  · next hbracket =>
      constructor
      · intro h
        cases h
      · rintro ⟨first, rest, heq, h⟩
        rw [heq, List.contains_iff_mem] at hbracket
        exact absurd ⟨h.opens, h.closes⟩ hbracket

theorem assign_eq_error_iff {path value : String} {e : Error} :
    assign path value = .error e ↔ parse path = .error e := by
  rw [assign]
  split
  · next e' hparse => simp [hparse]
  · next hparse => simp [hparse]
  · next hparse => simp [hparse]

end MemberPath
end TemplateMarkup
