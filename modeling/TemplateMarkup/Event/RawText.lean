import TemplateMarkup.Tag.Category
import TemplateMarkup.Text.Basic

/-!
# Raw text

The content of a raw text element runs to the first `</` that the name of the element follows, in
any case, if a closing bracket follows that. Where the element does not keep them, the marks of
comments and of character data sections are taken off.
-/

namespace TemplateMarkup
namespace RawText

/-- Whether `c` is `lower` or folds to it: letters fold to lower case, the long s to s and the
Kelvin sign to k. -/
def foldsTo (c lower : Char) : Bool :=
  c.toLower == lower || (c.toNat == 0x17F && lower == 's') || (c.toNat == 0x212A && lower == 'k')

/-- Splits `name`, in any case, off the front. -/
def readFolded? : List Char → List Char → Option (List Char × List Char)
  | [], cs => some ([], cs)
  | _ :: _, [] => none
  | l :: name, c :: cs =>
      if foldsTo c l then
        match readFolded? name cs with
        | some (taken, rest) => some (c :: taken, rest)
        | none => none
      else none

/-- The content of a raw text element, its end tag and what follows. -/
structure Ended where
  body : List Char
  endTag : List Char
  rest : List Char
  deriving DecidableEq, Repr

/-- Looks for the end tag of `name`, with `front` read before it, newest first. -/
def endOnto? (name front : List Char) : List Char → Option Ended
  | [] => none
  | c :: cs =>
      match readFolded? ('<' :: '/' :: name) (c :: cs) with
      | some (lead, behind) =>
          match Text.breakOn? [ '>' ] behind with
          | some (trailing, rest) =>
              some { body := front.reverse, endTag := lead ++ trailing ++ [ '>' ], rest }
          | none => none
      | none => endOnto? name (c :: front) cs

/-- The content up to the end tag of `name`, which is written in lower case; `none` if there is no
such end tag. -/
def end? (name : String) (cs : List Char) : Option Ended :=
  endOnto? name.toList [] cs

theorem readFolded?_eq_some {name cs taken rest : List Char}
    (h : readFolded? name cs = some (taken, rest)) :
    cs = taken ++ rest ∧ taken.length = name.length := by
  induction name generalizing cs taken rest with
  | nil =>
      simp only [readFolded?, Option.some.injEq, Prod.mk.injEq] at h
      simp [← h.1, h.2]
  | cons l name ih =>
      cases cs with
      | nil => simp [readFolded?] at h
      | cons c cs =>
          simp only [readFolded?] at h
          split at h
          · split at h
            · next hr =>
                simp only [Option.some.injEq, Prod.mk.injEq] at h
                have := ih hr
                simp [← h.1, ← h.2, this.1, this.2]
            · simp at h
          · simp at h

theorem endOnto?_eq_some {name front cs : List Char} {e : Ended}
    (h : endOnto? name front cs = some e) :
    front.reverse ++ cs = e.body ++ e.endTag ++ e.rest ∧ e.endTag ≠ [] := by
  induction cs generalizing front with
  | nil => simp [endOnto?] at h
  | cons c cs ih =>
      simp only [endOnto?] at h
      split at h
      · next hl =>
          split at h
          · next hb =>
              simp only [Option.some.injEq] at h
              rw [← h, (readFolded?_eq_some hl).1, Text.breakOn?_eq_some hb]
              simp
          · simp at h
      · simpa using ih h

theorem end?_eq_some {name : String} {cs : List Char} {e : Ended} (h : end? name cs = some e) :
    cs = e.body ++ e.endTag ++ e.rest ∧ e.endTag ≠ [] := by
  simpa using endOnto?_eq_some h

/-- Takes off every pair of `lead` and the first `tail` behind it, and keeps what stands between. -/
def unwrap (lead tail cs : List Char) (hlead : lead ≠ []) : List Char :=
  match _hl : Text.breakOn? lead cs with
  | none => cs
  | some (before, behind) =>
      match _ht : Text.breakOn? tail behind with
      | none => cs
      | some (inside, rest) => before ++ inside ++ unwrap lead tail rest hlead
termination_by cs.length
decreasing_by
  have h1 := Text.breakOn?_length _hl
  have h2 := Text.breakOn?_length _ht
  have h3 := List.length_pos_iff.2 hlead
  omega

/-- Takes off the marks of comments, then those of character data sections. -/
def unwrapAll (cs : List Char) : List Char :=
  unwrap "<![CDATA[".toList "]]>".toList
    (unwrap "<!--".toList "-->".toList cs (by decide)) (by decide)

/-- The text of the raw content `body` of an element. -/
def content (tag : String) (body : List Char) : List Char :=
  if Tag.keepsWrappers tag then body else unwrapAll body

end RawText
end TemplateMarkup
