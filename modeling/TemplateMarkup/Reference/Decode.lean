import TemplateMarkup.Reference.Names
import TemplateMarkup.Reference.Numeric
import TemplateMarkup.Text.Basic

/-!
# Character references

A reference is `&`, a body and `;`. Decoding is one pass from left to right: what a reference
stands for is not decoded again, and an ampersand that starts no known reference is left.

* `decodeText` knows the numeric references and all names,
* `decodeAttribute` knows the six references that attribute values are written with.
-/

namespace TemplateMarkup
namespace Reference

/-- The most bytes the body of a reference may have. -/
def maxBodyBytes : Nat := 32

/-- The reference whose ampersand has been read, and what follows it. -/
def read? (resolve : List Char → Option Char) (cs : List Char) : Option (Char × List Char) :=
  match Text.breakWithin? ';' maxBodyBytes cs with
  | some (b :: body, rest) => (resolve (b :: body)).map (·, rest)
  | _ => none

theorem read?_length {resolve : List Char → Option Char} {cs rest : List Char} {c : Char}
    (h : read? resolve cs = some (c, rest)) : rest.length < cs.length := by
  unfold read? at h
  split at h
  · next hb =>
      obtain ⟨_, _, hrest⟩ := Option.map_eq_some_iff.1 h
      have hlen := congrArg List.length (Text.breakWithin?_eq_some hb)
      simp only [Prod.mk.injEq] at hrest
      rw [← hrest.2]
      simp only [List.length_append, List.length_cons] at hlen
      omega
  · simp at h

/-- Decodes `cs` behind `out`, which is newest first. -/
def decodeOnto (resolve : List Char → Option Char) (out cs : List Char) : List Char :=
  match cs with
  | [] => out.reverse
  | c :: cs =>
      if c = '&' then
        match _h : read? resolve cs with
        | some (decoded, rest) => decodeOnto resolve (decoded :: out) rest
        | none => decodeOnto resolve ('&' :: out) cs
      else decodeOnto resolve (c :: out) cs
termination_by cs.length
decreasing_by
  · have := read?_length _h
    simp only [List.length_cons]
    omega
  · simp
  · simp

/-- Replaces every reference that `resolve` knows. -/
def decode (resolve : List Char → Option Char) (cs : List Char) : List Char :=
  decodeOnto resolve [] cs

/-- The references known in text. -/
def inText (body : List Char) : Option Char :=
  match body with
  | '#' :: number => numeric? number
  | name => named? name

/-- The references known in attribute values. -/
def inAttribute (body : List Char) : Option Char :=
  if body = "lt".toList then some '<'
  else if body = "gt".toList then some '>'
  else if body = "quot".toList then some '"'
  else if body = "amp".toList then some '&'
  else if body = "#10".toList then some '\n'
  else if body = "#9".toList then some '\t'
  else none

def decodeText (cs : List Char) : List Char :=
  decode inText cs

def decodeAttribute (cs : List Char) : List Char :=
  decode inAttribute cs

end Reference
end TemplateMarkup
