import TemplateMarkup.Proofs.Text.Cutting
import TemplateMarkup.Reference.Decode

/-!
# Decoding references

What decoding makes of the front of a text has nothing to do with what was decoded before it:

* `decodeOnto_eq` — the text decoded so far is only carried along,
* `decode_cons`, `decode_reference`, `decode_ampersand` — one step of decoding,
* `decode_ne_nil` — no text is decoded to nothing.

So a text that is made of references and of stretches without an ampersand (`Reference.Part`) is
decoded part by part: `decode_parts`.

Escaping writes the characters that a quoted value cannot hold, or could be mistaken for a
reference, as references. `decode_escape` is its round trip, for all decoders that know these.
-/

namespace TemplateMarkup
namespace Reference

variable {resolve : List Char → Option Char} {front body cs rest : List Char} {c decoded : Char}

/-! ## One step -/

theorem decodeOnto_eq (resolve : List Char → Option Char) (out cs : List Char) :
    decodeOnto resolve out cs = out.reverse ++ decode resolve cs := by
  -- The steps are the same whatever has been decoded; only the length of what is left shrinks.
  induction hlength : cs.length using Nat.strongRecOn generalizing out cs with
  | ind n ih =>
      subst hlength
      have hstep : ∀ (cs' out' front : List Char), cs'.length < cs.length →
          decodeOnto resolve (front ++ out') cs' =
            out'.reverse ++ decodeOnto resolve front cs' := by
        intro cs' out' front hlt
        rw [ih _ hlt _ _ rfl, ih _ hlt front _ rfl, List.reverse_append, List.append_assoc]
      unfold decode decodeOnto
      cases cs with
      | nil => simp
      | cons c cs =>
          by_cases hc : c = '&'
          · simp only [hc, if_true]
            split
            · next decoded rest hread =>
                have hlt := read?_length hread
                exact hstep rest out [decoded] (by rw [List.length_cons]; omega)
            · exact hstep cs out ['&'] (by simp)
          · simp only [hc, if_false]
            exact hstep cs out [c] (by simp)

@[simp] theorem decode_nil (resolve : List Char → Option Char) : decode resolve [] = [] := by
  simp [decode, decodeOnto]

theorem decode_cons (hc : c ≠ '&') : decode resolve (c :: cs) = c :: decode resolve cs := by
  rw [decode, decodeOnto, if_neg hc, decodeOnto_eq]
  rfl

theorem decode_reference (hread : read? resolve cs = some (decoded, rest)) :
    decode resolve ('&' :: cs) = decoded :: decode resolve rest := by
  rw [decode, decodeOnto, if_pos rfl]
  split
  · next hread' =>
      rw [hread] at hread'
      cases hread'
      rw [decodeOnto_eq]
      rfl
  · next hnone =>
      rw [hread] at hnone
      cases hnone

theorem decode_ampersand (hread : read? resolve cs = none) :
    decode resolve ('&' :: cs) = '&' :: decode resolve cs := by
  rw [decode, decodeOnto, if_pos rfl]
  split
  · next hsome =>
      rw [hread] at hsome
      cases hsome
  · rw [decodeOnto_eq]
    rfl

/-- No text is decoded to nothing: every character leaves one behind, or is part of a reference
that does. -/
theorem decode_ne_nil (h : cs ≠ []) : decode resolve cs ≠ [] := by
  rcases List.exists_cons_of_ne_nil h with ⟨c, rest, rfl⟩
  by_cases hc : c = '&'
  · subst hc
    cases hread : read? resolve rest with
    | none => simp [decode_ampersand hread]
    | some read =>
        rcases read with ⟨decoded, behind⟩
        simp [decode_reference hread]
  · simp [decode_cons hc]

/-- A body up to its semicolon is read if it is known, whatever follows. -/
theorem read?_append (hne : body ≠ []) (hnot : ';' ∉ body)
    (hbytes : Text.byteLength body ≤ maxBodyBytes) (rest : List Char) :
    read? resolve (body ++ ';' :: rest) = (resolve body).map (·, rest) := by
  have hbreak : Text.breakWithin? ';' maxBodyBytes (body ++ ';' :: rest) = some (body, rest) :=
    Text.breakWithin?_eq_some_iff.2 ⟨rfl, hnot, hbytes⟩
  unfold read?
  rw [hbreak]
  cases body with
  | nil => exact absurd rfl hne
  | cons b body => rfl

/-- A known reference is decoded, and decoding goes on behind its semicolon. -/
theorem decode_known (hne : body ≠ []) (hnot : ';' ∉ body)
    (hbytes : Text.byteLength body ≤ maxBodyBytes) (hresolve : resolve body = some decoded)
    (rest : List Char) :
    decode resolve ('&' :: (body ++ [';']) ++ rest) = decoded :: decode resolve rest := by
  have hread : read? resolve (body ++ ';' :: rest) = some (decoded, rest) := by
    rw [read?_append hne hnot hbytes rest, hresolve]
    rfl
  simpa using decode_reference hread

/-! ## Parts of a text -/

theorem decode_append (h : '&' ∉ front) (cs : List Char) :
    decode resolve (front ++ cs) = front ++ decode resolve cs := by
  induction front with
  | nil => rfl
  | cons c front ih =>
      rw [List.mem_cons, not_or] at h
      rw [List.cons_append, decode_cons (Ne.symm h.1), ih h.2, List.cons_append]

theorem decode_of_not_mem (h : '&' ∉ cs) : decode resolve cs = cs :=
  calc
    decode resolve cs = decode resolve (cs ++ []) := by rw [List.append_nil]
    _ = cs ++ decode resolve [] := decode_append h []
    _ = cs := by rw [decode_nil, List.append_nil]

/-- A stretch of text in which nothing starts a reference, or a reference that is known. -/
inductive Part (resolve : List Char → Option Char) where
  | plain (chars : List Char) (noAmpersand : '&' ∉ chars)
  | reference (body : List Char) (decoded : Char) (nonempty : body ≠ [])
      (noSemicolon : ';' ∉ body) (short : Text.byteLength body ≤ maxBodyBytes)
      (known : resolve body = some decoded)

namespace Part

/-- A part as it is written. -/
def chars : Part resolve → List Char
  | plain chars _ => chars
  | reference body .. => '&' :: (body ++ [';'])

/-- What a part stands for. -/
def meaning : Part resolve → List Char
  | plain chars _ => chars
  | reference _ decoded .. => [decoded]

/-- What a part stands for is not decoded again, whatever follows. -/
theorem decode_chars_append (p : Part resolve) (rest : List Char) :
    decode resolve (p.chars ++ rest) = p.meaning ++ decode resolve rest := by
  cases p with
  | plain chars noAmpersand => exact decode_append noAmpersand rest
  | reference body decoded nonempty noSemicolon short known =>
      exact decode_known nonempty noSemicolon short known rest

end Part

theorem decode_parts (parts : List (Part resolve)) :
    decode resolve (parts.flatMap Part.chars) = parts.flatMap Part.meaning := by
  induction parts with
  | nil => exact decode_nil resolve
  | cons p parts ih =>
      rw [List.flatMap_cons, List.flatMap_cons, p.decode_chars_append, ih]

/-! ## Escaping -/

/-- The characters that are escaped, and the bodies of the references they are written as. -/
def escapes : List (Char × List Char) :=
  [('&', "amp".toList), ('<', "lt".toList), ('>', "gt".toList), ('"', "quot".toList),
    ('\n', "#10".toList), ('\t', "#9".toList)]

def escapeChar (c : Char) : List Char :=
  match escapes.lookup c with
  | some body => '&' :: (body ++ [';'])
  | none => [c]

/-- Writes ampersands, brackets, double quotes, line feeds and tabs as references. -/
def escape (cs : List Char) : List Char :=
  cs.flatMap escapeChar

theorem mem_escapes (h : escapes.lookup c = some body) : (c, body) ∈ escapes := by
  rcases List.lookup_eq_some_iff.1 h with ⟨front, back, heq, _⟩
  rw [heq]
  exact List.mem_append_right front List.mem_cons_self

/-- The references of an escaped text are short, and have nothing in them that would end them. -/
theorem escapes_wellFormed : ∀ e ∈ escapes,
    e.2 ≠ [] ∧ ';' ∉ e.2 ∧ '"' ∉ e.2 ∧ Text.byteLength e.2 ≤ maxBodyBytes := by
  decide

theorem decode_escapeChar (hresolve : ∀ e ∈ escapes, resolve e.2 = some e.1) (c : Char)
    (rest : List Char) :
    decode resolve (escapeChar c ++ rest) = c :: decode resolve rest := by
  unfold escapeChar
  cases hbody : escapes.lookup c with
  | some body =>
      have hmem := mem_escapes hbody
      rcases escapes_wellFormed _ hmem with ⟨hne, hnot, _, hbytes⟩
      exact decode_known hne hnot hbytes (hresolve _ hmem) rest
  | none =>
      -- An ampersand would have been escaped.
      have hc : c ≠ '&' := by
        rintro rfl
        cases hbody
      exact decode_cons hc

/-- Decoding takes escaping back, when the references it writes are known. -/
theorem decode_escape (hresolve : ∀ e ∈ escapes, resolve e.2 = some e.1) (cs : List Char) :
    decode resolve (escape cs) = cs := by
  induction cs with
  | nil => simp [escape]
  | cons c cs ih =>
      rw [escape, List.flatMap_cons, decode_escapeChar hresolve, ← escape, ih]

theorem decodeAttribute_escape (cs : List Char) : decodeAttribute (escape cs) = cs :=
  decode_escape (by decide) cs

theorem decodeText_escape (cs : List Char) : decodeText (escape cs) = cs :=
  decode_escape (by decide) cs

theorem quote_not_mem_escape (cs : List Char) : '"' ∉ escape cs := by
  intro hmem
  rcases List.mem_flatMap.1 hmem with ⟨c, _, hc⟩
  unfold escapeChar at hc
  cases hbody : escapes.lookup c with
  | some body =>
      rw [hbody] at hc
      have hnot := (escapes_wellFormed _ (mem_escapes hbody)).2.2.1
      simp [hnot] at hc
  | none =>
      rw [hbody] at hc
      simp only [List.mem_singleton] at hc
      subst hc
      cases hbody

/-! ## Both decoders -/

/-- Text and attribute values are decoded in one pass from left to right: part by part, where what
a reference stands for is not looked at again. So both decoders take escaping back. -/
theorem decode_one_pass :
    (∀ parts : List (Part inText),
      decodeText (parts.flatMap Part.chars) = parts.flatMap Part.meaning) ∧
    (∀ parts : List (Part inAttribute),
      decodeAttribute (parts.flatMap Part.chars) = parts.flatMap Part.meaning) ∧
    ∀ cs, decodeText (escape cs) = cs ∧ decodeAttribute (escape cs) = cs := by
  refine ⟨decode_parts, decode_parts, fun cs => ?_⟩
  exact ⟨decodeText_escape cs, decodeAttribute_escape cs⟩

/-- An ampersand that comes out of a reference does not start one with the text behind it. -/
theorem decode_one_pass_ampersand :
    decodeText "&amp;lt;".toList = "&lt;".toList ∧
      decodeAttribute "&amp;lt;".toList = "&lt;".toList := by
  constructor
  · exact decode_one_pass.1
      [.reference "amp".toList '&' (by decide) (by decide) (by decide) (by decide),
        .plain "lt;".toList (by decide)]
  · exact decode_one_pass.2.1
      [.reference "amp".toList '&' (by decide) (by decide) (by decide) (by decide),
        .plain "lt;".toList (by decide)]

end Reference
end TemplateMarkup
