import Mathlib.Data.List.Basic
import Mathlib.Data.List.TakeWhile
import TemplateMarkup.Proofs.Text.Cutting

/-!
# Trimming

What is left when the blanks around a text are taken off:

* `Text.trimmed_trim` — it has no blank at either end,
* `Text.trim_eq_nil_iff` — it is empty only if the text is blank,
* `Text.mem_of_mem_trim` — it has no character that the text does not have.
-/

namespace TemplateMarkup
namespace Text

variable {c : Char} {cs : List Char}

theorem isBlank_head?_dropWhile (h : (cs.dropWhile isBlank).head? = some c) : isBlank c = false := by
  have hnot := List.head?_dropWhile_not isBlank cs
  rw [h] at hnot
  simpa using hnot

/-- What is left of a text when it is trimmed has no blank at either end. -/
theorem trimmed_trim (cs : List Char) : Trimmed (trim cs) where
  head := by
    intro c hc
    -- What is dropped at the end does not reach the character in front, which is solid.
    have hne : (cs.dropWhile isBlank).reverse.dropWhile isBlank ≠ [] := by
      intro hnil
      simp [trim, hnil] at hc
    have hback : ((cs.dropWhile isBlank).reverse.dropWhile isBlank).getLast? =
        (cs.dropWhile isBlank).head? := by
      rcases List.dropWhile_suffix isBlank (l := (cs.dropWhile isBlank).reverse) with
        ⟨blanks, hblanks⟩
      rw [← List.getLast?_append_of_ne_nil blanks hne, hblanks, List.getLast?_reverse]
    rw [trim, List.head?_reverse, hback] at hc
    exact isBlank_head?_dropWhile hc
  last := by
    intro c hc
    rw [trim, List.getLast?_reverse] at hc
    exact isBlank_head?_dropWhile hc

theorem trim_eq_nil_iff : trim cs = [] ↔ ∀ c ∈ cs, isBlank c = true := by
  constructor
  · intro h
    have hdrop : cs.dropWhile isBlank = [] := by
      rw [trim, List.reverse_eq_nil_iff, List.dropWhile_eq_nil_iff] at h
      cases hdrop : cs.dropWhile isBlank with
      | nil => rfl
      | cons c rest =>
          -- What is left in front does not start with a blank.
          have hsolid : isBlank c = false := isBlank_head?_dropWhile (by rw [hdrop]; rfl)
          rw [h c (by simp [hdrop])] at hsolid
          cases hsolid
    exact List.dropWhile_eq_nil_iff.1 hdrop
  · intro h
    rw [trim, List.dropWhile_eq_nil_iff.2 h]
    rfl

theorem mem_of_mem_trim (h : c ∈ trim cs) : c ∈ cs := by
  rw [trim, List.mem_reverse] at h
  have hfront := (List.dropWhile_sublist isBlank).subset h
  rw [List.mem_reverse] at hfront
  exact (List.dropWhile_sublist isBlank).subset hfront

end Text
end TemplateMarkup
