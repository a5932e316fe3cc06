import TemplateMarkup.Text.Basic

/-!
# Declarations

Comments, bracketed sections and document types are skipped: they leave no trace in the events.
-/

namespace TemplateMarkup
namespace Declaration

/-- A comment: `<!--`, then anything up to the first `-->`. -/
def readComment? (cs : List Char) : Option (List Char × List Char) :=
  match Text.after? "<!--".toList cs with
  | none => none
  | some body =>
      match Text.breakOn? "-->".toList body with
      | none => none
      | some (inside, rest) => some ("<!--".toList ++ inside ++ "-->".toList, rest)

/-- A bracketed section: `<![`, then anything up to the first `]>`. -/
def readSection? (cs : List Char) : Option (List Char × List Char) :=
  match Text.after? "<![".toList cs with
  | none => none
  | some body =>
      match Text.breakOn? "]>".toList body with
      | none => none
      | some (inside, rest) => some ("<![".toList ++ inside ++ "]>".toList, rest)

/-- What a document type starts with, in any case. -/
def doctypeLead : List Char :=
  "<!doctype ".toList

/-- A document type: its lead, then at least one character, up to the first closing bracket. -/
def readDoctype? (cs : List Char) : Option (List Char × List Char) :=
  let lead := cs.take doctypeLead.length
  if lead.map Char.toLower = doctypeLead then
    match Text.breakOn? [ '>' ] (cs.drop doctypeLead.length) with
    | some (c :: inside, rest) => some (lead ++ (c :: inside) ++ [ '>' ], rest)
    | _ => none
  else none

/-- The complete declaration at the front, and what follows it. -/
def read? (cs : List Char) : Option (List Char × List Char) :=
  match readComment? cs with
  | some found => some found
  | none =>
      match readSection? cs with
      | some found => some found
      | none => readDoctype? cs

/-- Whether the text starts like a comment or a bracketed section, complete or not. -/
def starts (cs : List Char) : Bool :=
  (Text.after? "<!--".toList cs).isSome || (Text.after? "<![".toList cs).isSome

theorem readComment?_eq_some {cs taken rest : List Char}
    (h : readComment? cs = some (taken, rest)) : cs = taken ++ rest ∧ taken ≠ [] := by
  unfold readComment? at h
  split at h
  · simp at h
  · next ha =>
      split at h
      · simp at h
      · next hb =>
          simp only [Option.some.injEq, Prod.mk.injEq] at h
          rw [← h.1, ← h.2, Text.after?_eq_some ha, Text.breakOn?_eq_some hb]
          simp

theorem readSection?_eq_some {cs taken rest : List Char}
    (h : readSection? cs = some (taken, rest)) : cs = taken ++ rest ∧ taken ≠ [] := by
  unfold readSection? at h
  split at h
  · simp at h
  · next ha =>
      split at h
      · simp at h
      · next hb =>
          simp only [Option.some.injEq, Prod.mk.injEq] at h
          rw [← h.1, ← h.2, Text.after?_eq_some ha, Text.breakOn?_eq_some hb]
          simp

theorem readDoctype?_eq_some {cs taken rest : List Char}
    (h : readDoctype? cs = some (taken, rest)) : cs = taken ++ rest ∧ taken ≠ [] := by
  simp only [readDoctype?] at h
  split at h
  · split at h
    · next hb =>
        simp only [Option.some.injEq, Prod.mk.injEq] at h
        have hdrop := Text.breakOn?_eq_some hb
        refine ⟨?_, by simp [← h.1]⟩
        rw [← h.1, ← h.2]
        have := List.take_append_drop doctypeLead.length cs
        rw [hdrop] at this
        simpa using this.symm
    · simp at h
  · simp at h

theorem read?_eq_some {cs taken rest : List Char} (h : read? cs = some (taken, rest)) :
    cs = taken ++ rest ∧ taken ≠ [] := by
  unfold read? at h
  split at h
  · next hc => exact readComment?_eq_some (hc.trans h)
  · split at h
    · next hs => exact readSection?_eq_some (hs.trans h)
    · exact readDoctype?_eq_some h

end Declaration
end TemplateMarkup
