import Mathlib.Data.List.Forall2
import Mathlib.Data.List.Lex
import Mathlib.Data.List.Nodup
import Mathlib.Data.String.Basic
import TemplateMarkup.Check.Run

/-!
# The files that are checked

A check sorts the files that it selects by their paths. This file shows that the order is the usual
one of lists of strings (`Check.pathInOrder_iff`), and from it that the files to check do not depend
on how they were found:

* `Check.Alike selected f g` — two files that differ at most in a content that is not looked at,
* `Check.select_perm`, `Check.select_sorted` — the files to check are those selected, in the order
  of their paths,
* `Check.select_eq` — the same files are checked when the files are found in another order, or
  differ in this way.
-/

namespace TemplateMarkup
namespace Check

variable {settings : Settings} {globs : List (List Glob.Token)}
  {files files' found : List SourceFile}

/-! ## The order of paths -/

theorem textBefore_iff {cs ds : List Char} : textBefore cs ds ↔ cs < ds := by
  induction cs generalizing ds with
  | nil => cases ds <;> simp [textBefore]
  | cons c cs ih =>
      cases ds with
      | nil => simp [textBefore]
      | cons d ds =>
          rw [textBefore, List.cons_lt_cons_iff]
          by_cases hsame : c = d
          · subst hsame
            simp [ih]
          · simp [hsame]

theorem pathInOrder_iff {p q : List String} : pathInOrder p q ↔ p ≤ q := by
  induction p generalizing q with
  | nil =>
      rw [← not_lt]
      simp [pathInOrder]
  | cons a p ih =>
      cases q with
      | nil =>
          rw [← not_lt]
          simp [pathInOrder]
      | cons b q =>
          rw [pathInOrder, ← not_lt, List.cons_lt_cons_iff]
          by_cases hsame : a = b
          · subst hsame
            simp [ih]
          · rw [if_neg hsame, textBefore_iff, ← String.lt_iff_toList_lt]
            constructor
            · intro hlt hnot
              rcases hnot with hgt | ⟨heq, _⟩
              · exact lt_asymm hlt hgt
              · exact hsame heq.symm
            · intro hnot
              have hle : a ≤ b := not_lt.1 fun hgt => hnot (.inl hgt)
              exact lt_of_le_of_ne hle hsame

/-! ## Selecting -/

theorem select_perm (settings : Settings) (globs : List (List Glob.Token))
    (files : List SourceFile) :
    (select settings globs files).Perm (files.filter (isSelected settings globs)) :=
  List.mergeSort_perm _ _

theorem select_sorted (settings : Settings) (globs : List (List Glob.Token))
    (files : List SourceFile) :
    (select settings globs files).Pairwise fun f g => f.path ≤ g.path := by
  have hsorted : (select settings globs files).Pairwise
      fun f g => pathInOrder f.path g.path = true := by
    refine List.pairwise_mergeSort (fun f g h hfg hgh => ?_) (fun f g => ?_) _
    · exact pathInOrder_iff.2 (le_trans (pathInOrder_iff.1 hfg) (pathInOrder_iff.1 hgh))
    · rw [Bool.or_eq_true, pathInOrder_iff, pathInOrder_iff]
      exact le_total f.path g.path
  exact hsorted.imp pathInOrder_iff.1

/-- No two files have the same path. -/
def DistinctPaths (files : List SourceFile) : Prop :=
  (files.map (·.path)).Nodup

theorem DistinctPaths.select (h : DistinctPaths files) (settings : Settings)
    (globs : List (List Glob.Token)) : DistinctPaths (select settings globs files) := by
  have hfilter : DistinctPaths (files.filter (isSelected settings globs)) :=
    h.sublist (List.filter_sublist.map _)
  exact ((select_perm settings globs files).map _).nodup_iff.2 hfilter

/-- The paths of the files to check increase. -/
theorem DistinctPaths.select_increasing (h : DistinctPaths files) (settings : Settings)
    (globs : List (List Glob.Token)) :
    ((Check.select settings globs files).map (·.path)).Pairwise (· < ·) := by
  have hsorted : ((Check.select settings globs files).map (·.path)).Pairwise (· ≤ ·) :=
    List.pairwise_map.2 (select_sorted settings globs files)
  have hdistinct : ((Check.select settings globs files).map (·.path)).Pairwise (· ≠ ·) :=
    h.select settings globs
  exact (hsorted.and hdistinct).imp fun hboth => lt_of_le_of_ne hboth.1 hboth.2

theorem DistinctPaths.eq_of_path {f g : SourceFile} (h : DistinctPaths files) (hf : f ∈ files)
    (hg : g ∈ files) (hpath : f.path = g.path) : f = g :=
  List.inj_on_of_nodup_map h hf hg hpath

/-! ## Files that are found in another way -/

/-- The same file, up to the content of one that is not selected. -/
structure Alike (selected : SourceFile → Bool) (f g : SourceFile) : Prop where
  path_eq : g.path = f.path
  name_eq : g.name = f.name
  content_eq : selected f → g.content = f.content

theorem Alike.isSelected_eq {selected : SourceFile → Bool} {f g : SourceFile}
    (h : Alike selected f g) : isSelected settings globs g = isSelected settings globs f := by
  simp [isSelected, hasExtension, relativePath, h.path_eq, h.name_eq]

theorem Alike.eq {selected : SourceFile → Bool} {f g : SourceFile} (h : Alike selected f g)
    (hselected : selected f) : g = f := by
  rcases f with ⟨path, name, content⟩
  rcases g with ⟨path', name', content'⟩
  rcases h with ⟨hpath, hname, hcontent⟩
  rw [SourceFile.mk.injEq]
  exact ⟨hpath, hname, hcontent hselected⟩

/-- Of files that are alike the same ones are selected. -/
theorem filter_eq_of_alike (h : List.Forall₂ (Alike (isSelected settings globs)) files files') :
    files'.filter (isSelected settings globs) = files.filter (isSelected settings globs) := by
  induction h with
  | nil => rfl
  | @cons f g files files' hfirst _ ih =>
      cases hselected : isSelected settings globs f with
      | false => simp [hfirst.isSelected_eq, hselected, ih]
      | true => simp [hfirst.eq hselected, hselected, ih]

/-- The files to check do not depend on the order in which the files are found, nor on what stands
in the others. -/
theorem select_eq (hpaths : DistinctPaths files)
    (halike : List.Forall₂ (Alike (isSelected settings globs)) files files')
    (hfound : files'.Perm found) :
    select settings globs found = select settings globs files := by
  have hfiltered : (found.filter (isSelected settings globs)).Perm
      (files.filter (isSelected settings globs)) := by
    rw [← filter_eq_of_alike halike]
    exact (hfound.filter _).symm
  have hperm : (select settings globs found).Perm (select settings globs files) :=
    ((select_perm settings globs found).trans hfiltered).trans
      (select_perm settings globs files).symm
  -- A list with distinct paths has only one order in which the paths increase.
  refine List.Perm.eq_of_pairwise (fun f g hf hg hfg hgf => ?_)
    (select_sorted settings globs found) (select_sorted settings globs files) hperm
  exact (hpaths.select settings globs).eq_of_path (hperm.subset hf) hg (le_antisymm hfg hgf)

end Check
end TemplateMarkup
