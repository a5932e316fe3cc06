import Mathlib.Data.List.Forall2
import Mathlib.Data.Nat.Digits.Defs
import Mathlib.Tactic.IntervalCases
import Mathlib.Tactic.Ring
import TemplateMarkup.Proofs.Reference.Decode

/-!
# Numeric references

Which bodies of references have a number, and what they stand for, can be said without reading
them. This file defines:

* `Reference.IsDigit base c v` — `c` is the digit with the value `v`,
* `Reference.Numeral base cs n` — the digits `cs` write the number `n`,
* `Reference.Writes sign body n` — `body` is `#` or `#x`, then `sign`, then the digits of `n`,
* `Reference.StandsFor n c` — `c` is the character with the number `n`, or the replacement character
  if there is none.

A number of 32 bits is read without a sign, as references are written, but also behind a plus sign,
as none is written (`numeric?_eq_some_iff`). All other bodies are left as they are:
`decodeText_number`.
-/

namespace TemplateMarkup
namespace Reference

variable {base value n v : Nat} {c : Char} {cs body sign number : List Char}

/-! ## Digits -/

/-- A digit is written in lower or in upper case. -/
def IsDigit (base : Nat) (c : Char) (v : Nat) : Prop :=
  v < base ∧ (c = Nat.digitChar v ∨ c = (Nat.digitChar v).toUpper)

/-- One or more digits and their number, the highest place first. -/
def Numeral (base : Nat) (cs : List Char) (n : Nat) : Prop :=
  cs ≠ [] ∧ ∃ vs, List.Forall₂ (IsDigit base) cs vs ∧ n = Nat.ofDigits base vs.reverse

/-- The letters behind nine. -/
theorem toNat_digitChar_letter (hten : 10 ≤ v) (hlt : v < 16) :
    (Nat.digitChar v).toNat = v + 87 ∧ (Nat.digitChar v).toUpper.toNat = v + 55 := by
  interval_cases v <;> decide

theorem digit?_eq_some_iff (hbase : base ≤ 16) : digit? base c = some v ↔ IsDigit base c v := by
  constructor
  · intro h
    rcases Option.filter_eq_some_iff.1 h with ⟨hvalue, hlt⟩
    have hv : v < base := of_decide_eq_true hlt
    -- One case for each row of digits; the value tells which one of its row `c` is.
    split at hvalue
    · next hc =>
        have hrange : 48 ≤ c.toNat ∧ c.toNat ≤ 57 := Text.range_of_le hc
        have hsub : c.toNat - 48 = v := Option.some.inj hvalue
        refine ⟨hv, .inl (Char.toNat_inj.1 ?_)⟩
        rw [Nat.toNat_digitChar_of_lt_ten (by omega)]
        omega
    · split at hvalue
      · next hc =>
          have hrange : 97 ≤ c.toNat ∧ c.toNat ≤ 102 := Text.range_of_le hc
          have hsub : c.toNat - 97 + 10 = v := Option.some.inj hvalue
          refine ⟨hv, .inl (Char.toNat_inj.1 ?_)⟩
          rw [(toNat_digitChar_letter (by omega) (by omega)).1]
          omega
      · split at hvalue
        · next hc =>
            have hrange : 65 ≤ c.toNat ∧ c.toNat ≤ 70 := Text.range_of_le hc
            have hsub : c.toNat - 65 + 10 = v := Option.some.inj hvalue
            refine ⟨hv, .inr (Char.toNat_inj.1 ?_)⟩
            rw [(toNat_digitChar_letter (by omega) (by omega)).2]
            omega
        · cases hvalue
  · rintro ⟨hlt, hc⟩
    have hv : v < 16 := Nat.lt_of_lt_of_le hlt hbase
    interval_cases v <;> rcases hc with rfl | rfl <;> simp [digit?, Nat.digitChar, hlt]

/-- Reading goes from the highest place to the lowest, and the places read so far move up. -/
theorem digitsFrom?_eq_some_iff (hbase : base ≤ 16) :
    digitsFrom? base value cs = some n ↔
      ∃ vs, List.Forall₂ (IsDigit base) cs vs ∧
        n = base ^ cs.length * value + Nat.ofDigits base vs.reverse := by
  induction cs generalizing value with
  | nil =>
      constructor
      · intro h
        refine ⟨[], .nil, ?_⟩
        have hvalue : value = n := Option.some.inj h
        simp [hvalue]
      · rintro ⟨vs, hdigits, hn⟩
        cases hdigits
        simp [digitsFrom?, hn]
  | cons c cs ih =>
      -- The first digit ends up as the highest place.
      have hplace (v : Nat) (vs : List Nat) (hlength : cs.length = vs.length) :
          base ^ cs.length * (base * value + v) + Nat.ofDigits base vs.reverse =
            base ^ (c :: cs).length * value + Nat.ofDigits base (v :: vs).reverse := by
        rw [List.reverse_cons, Nat.ofDigits_append, Nat.ofDigits_singleton, List.length_reverse,
          ← hlength, List.length_cons]
        ring
      constructor
      · intro h
        rw [digitsFrom?] at h
        split at h
        · next v hv =>
            rcases ih.1 h with ⟨vs, hdigits, hn⟩
            refine ⟨v :: vs, .cons ((digit?_eq_some_iff hbase).1 hv) hdigits, ?_⟩
            rw [hn, hplace v vs hdigits.length_eq]
        · cases h
      · rintro ⟨vs, hdigits, hn⟩
        cases hdigits with
        | cons hv hdigits =>
            rename_i v vs
            rw [digitsFrom?, (digit?_eq_some_iff hbase).2 hv]
            refine ih.2 ⟨vs, hdigits, ?_⟩
            rw [hn, hplace v vs hdigits.length_eq]

/-! ## Numbers with and without a sign -/

theorem numeral_iff (hbase : base ≤ 16) :
    Numeral base cs n ↔ cs ≠ [] ∧ digitsFrom? base 0 cs = some n := by
  rw [digitsFrom?_eq_some_iff hbase, Numeral]
  simp only [Nat.mul_zero, Nat.zero_add]

/-- What does not start with a digit is no number. -/
theorem not_numeral (hbase : base ≤ 16) (hc : digit? base c = none) :
    ¬Numeral base (c :: cs) n := by
  rintro ⟨_, vs, hdigits, _⟩
  cases hdigits with
  | cons hdigit _ =>
      rw [(digit?_eq_some_iff hbase).2 hdigit] at hc
      cases hc

theorem number?_plus (hbase : base ≤ 16) :
    number? base ('+' :: cs) = some n ↔ n < 2 ^ 32 ∧ Numeral base cs n := by
  rw [numeral_iff hbase]
  cases cs with
  | nil => simp [number?]
  | cons c cs => simp [number?, Option.filter_eq_some_iff, UInt32.size, and_comm]

theorem number?_of_head (hbase : base ≤ 16) (hhead : cs.head? ≠ some '+') :
    number? base cs = some n ↔ n < 2 ^ 32 ∧ Numeral base cs n := by
  rw [numeral_iff hbase]
  cases cs with
  | nil => simp [number?]
  | cons c cs =>
      have hc : c ≠ '+' := by simpa using hhead
      simp [number?, hc, Option.filter_eq_some_iff, UInt32.size, and_comm]

/-- A number of 32 bits is read, with or without a plus sign in front of it. -/
theorem number?_eq_some_iff (hbase : base ≤ 16) :
    number? base cs = some n ↔
      n < 2 ^ 32 ∧ (Numeral base cs n ∨ ∃ digits, cs = '+' :: digits ∧ Numeral base digits n) := by
  by_cases hhead : cs.head? = some '+'
  · rcases List.head?_eq_some_iff.1 hhead with ⟨digits, rfl⟩
    have hnot : ¬Numeral base ('+' :: digits) n := not_numeral hbase rfl
    simp [number?_plus hbase, hnot]
  · have hnot : ¬∃ digits, cs = '+' :: digits ∧ Numeral base digits n := by
      rintro ⟨digits, rfl, _⟩
      exact hhead rfl
    rw [number?_of_head hbase hhead, or_iff_left hnot]

/-! ## References -/

/-- The body of a numeric reference, where `sign` stands in front of the digits. -/
inductive Writes (sign : List Char) : List Char → Nat → Prop
  | decimal {digits : List Char} {n : Nat} (numeral : Numeral 10 digits n) :
      Writes sign ('#' :: (sign ++ digits)) n
  | hexadecimal {x : Char} {digits : List Char} {n : Nat} (isMark : x = 'x' ∨ x = 'X')
      (numeral : Numeral 16 digits n) : Writes sign ('#' :: x :: (sign ++ digits)) n

/-- The body of a reference that is read: its number has 32 bits, with or without a plus sign. -/
def Readable (body : List Char) (n : Nat) : Prop :=
  n < 2 ^ 32 ∧ (Writes [] body n ∨ Writes ['+'] body n)

/-- The mark of hexadecimal digits is no decimal digit. -/
theorem writes_hexadecimal_iff {x : Char} (hx : x = 'x' ∨ x = 'X') (hsign : x ∉ sign) :
    Writes sign ('#' :: x :: cs) n ↔ ∃ digits, cs = sign ++ digits ∧ Numeral 16 digits n := by
  constructor
  · intro h
    generalize hbody : '#' :: x :: cs = body at h
    cases h with
    | @decimal digits _ numeral =>
        exfalso
        have hcons : x :: cs = sign ++ digits := (List.cons.inj hbody).2
        cases sign with
        | nil =>
            rw [List.nil_append] at hcons
            rw [← hcons] at numeral
            have hnone : digit? 10 x = none := by rcases hx with rfl | rfl <;> rfl
            exact not_numeral (by decide) hnone numeral
        | cons s sign =>
            have hhead : x = s := (List.cons.inj hcons).1
            exact hsign (by simp [hhead])
    | @hexadecimal _ digits _ isMark numeral =>
        have hcons := (List.cons.inj (List.cons.inj hbody).2).2
        exact ⟨digits, hcons, numeral⟩
  · rintro ⟨digits, rfl, numeral⟩
    exact .hexadecimal hx numeral

theorem writes_decimal_iff (hmark : ∀ x tail, number = x :: tail → ¬(x = 'x' ∨ x = 'X')) :
    Writes sign ('#' :: number) n ↔ ∃ digits, number = sign ++ digits ∧ Numeral 10 digits n := by
  constructor
  · intro h
    generalize hbody : '#' :: number = body at h
    cases h with
    | @decimal digits _ numeral => exact ⟨digits, (List.cons.inj hbody).2, numeral⟩
    | @hexadecimal x digits _ isMark numeral =>
        exact absurd isMark (hmark x _ (List.cons.inj hbody).2)
  · rintro ⟨digits, rfl, numeral⟩
    exact .decimal numeral

theorem readable_hexadecimal_iff {x : Char} (hx : x = 'x' ∨ x = 'X') :
    Readable ('#' :: x :: cs) n ↔ number? 16 cs = some n := by
  have hplus : x ∉ ['+'] := by rcases hx with rfl | rfl <;> decide
  rw [number?_eq_some_iff (by decide), Readable, writes_hexadecimal_iff hx (by simp),
    writes_hexadecimal_iff hx hplus]
  simp

theorem readable_decimal_iff (hmark : ∀ x tail, number = x :: tail → ¬(x = 'x' ∨ x = 'X')) :
    Readable ('#' :: number) n ↔ number? 10 number = some n := by
  rw [number?_eq_some_iff (by decide), Readable, writes_decimal_iff hmark,
    writes_decimal_iff hmark]
  simp

/-- A reference is read by its mark. -/
theorem numeric?_eq_some_iff :
    numeric? number = some c ↔ ∃ n, Readable ('#' :: number) n ∧ charOf n = c := by
  unfold numeric?
  rw [Option.map_eq_some_iff]
  refine exists_congr fun n => and_congr_left fun _ => ?_
  split
  · exact (readable_hexadecimal_iff (.inl rfl)).symm
  · exact (readable_hexadecimal_iff (.inr rfl)).symm
  · next hlower hupper =>
      refine (readable_decimal_iff ?_).symm
      rintro x tail rfl (rfl | rfl)
      · exact hlower tail rfl
      · exact hupper tail rfl

/-- The character with the number `n`; the replacement character stands for zero, for surrogates
and for what is beyond the last character. -/
def StandsFor (n : Nat) (c : Char) : Prop :=
  if n = 0 ∨ (0xD800 ≤ n ∧ n ≤ 0xDFFF) ∨ 0x10FFFF < n then c = '\uFFFD' else c.toNat = n

theorem standsFor_charOf (n : Nat) : StandsFor n (charOf n) := by
  unfold StandsFor charOf
  by_cases hzero : n = 0
  · simp [hzero, replacement]
  · by_cases hvalid : n.isValidChar
    · have hchar : ¬(n = 0 ∨ (0xD800 ≤ n ∧ n ≤ 0xDFFF) ∨ 0x10FFFF < n) := by
        rcases hvalid with hlow | ⟨hhigh, hlast⟩ <;> omega
      rw [if_neg hchar, if_neg hzero, dif_pos hvalid]
      rfl
    · have hnone : n = 0 ∨ (0xD800 ≤ n ∧ n ≤ 0xDFFF) ∨ 0x10FFFF < n := by
        simp only [Nat.isValidChar] at hvalid
        omega
      rw [if_pos hnone, if_neg hzero, dif_neg hvalid]
      rfl

/-! ## Decoding -/

/-- The reference with the body `#number`. -/
def written (number : List Char) : List Char :=
  '&' :: ('#' :: number ++ [';'])

theorem decodeText_readable (hnot : ';' ∉ number)
    (hbytes : Text.byteLength ('#' :: number) ≤ maxBodyBytes)
    (h : Readable ('#' :: number) n) : decodeText (written number) = [charOf n] := by
  have hknown : inText ('#' :: number) = some (charOf n) := numeric?_eq_some_iff.2 ⟨n, h, rfl⟩
  have hdecode := decode_known (List.cons_ne_nil _ _) (by simpa using hnot) hbytes hknown []
  rw [List.append_nil, decode_nil] at hdecode
  exact hdecode

theorem decodeText_unreadable (hnot : ';' ∉ number) (hampersand : '&' ∉ number)
    (hbytes : Text.byteLength ('#' :: number) ≤ maxBodyBytes)
    (h : ∀ n, ¬Readable ('#' :: number) n) : decodeText (written number) = written number := by
  have hunknown : inText ('#' :: number) = none := by
    rw [Option.eq_none_iff_forall_ne_some]
    intro c hc
    rcases numeric?_eq_some_iff.1 hc with ⟨n, hreadable, _⟩
    exact h n hreadable
  have hread : read? inText ('#' :: number ++ [';']) = none := by
    rw [read?_append (List.cons_ne_nil _ _) (by simpa using hnot) hbytes, hunknown]
    rfl
  -- Nothing is left that a reference could start with.
  have hplain : '&' ∉ '#' :: number ++ [';'] := by simpa using hampersand
  rw [decodeText, written, decode_ampersand hread, decode_of_not_mem hplain]

/-- Numeric references are decoded by their number if that has 32 bits, and left as they are
otherwise. The digits may stand behind a plus sign. -/
theorem decodeText_number (number : List Char) (hnot : ';' ∉ number) (hampersand : '&' ∉ number)
    (hbytes : Text.byteLength ('#' :: number) ≤ maxBodyBytes) :
    (∀ n < 2 ^ 32, Writes [] ('#' :: number) n ∨ Writes ['+'] ('#' :: number) n →
      ∃ c, StandsFor n c ∧ decodeText (written number) = [c]) ∧
    (decodeText (written number) ≠ written number ↔
      ∃ n < 2 ^ 32, Writes [] ('#' :: number) n ∨ Writes ['+'] ('#' :: number) n) := by
  refine ⟨fun n hlt hwrites => ?_, ?_, ?_⟩
  · exact ⟨charOf n, standsFor_charOf n, decodeText_readable hnot hbytes ⟨hlt, hwrites⟩⟩
  · intro hchanged
    by_contra hnone
    refine hchanged (decodeText_unreadable hnot hampersand hbytes fun n hreadable => ?_)
    exact hnone ⟨n, hreadable⟩
  · rintro ⟨n, hreadable⟩ hsame
    rw [decodeText_readable hnot hbytes hreadable] at hsame
    -- A reference is longer than the one character it stands for.
    have hlength := congrArg List.length hsame
    simp [written] at hlength

/-- A surrogate has a number and no character. -/
theorem decodeText_number_surrogate :
    ';' ∉ "xD800".toList ∧ '&' ∉ "xD800".toList ∧
      Text.byteLength ('#' :: "xD800".toList) ≤ maxBodyBytes ∧
      decodeText (written "xD800".toList) = ['\uFFFD'] := by
  have hnumeral : Numeral 16 "D800".toList 0xD800 :=
    ⟨by decide, [13, 8, 0, 0], by simp [IsDigit, Nat.digitChar], by decide⟩
  have hwrites : Writes [] ('#' :: "xD800".toList) 0xD800 := .hexadecimal (.inl rfl) hnumeral
  refine ⟨by decide, by decide, by decide, ?_⟩
  rcases (decodeText_number "xD800".toList (by decide) (by decide) (by decide)).1
    0xD800 (by decide) (.inl hwrites) with ⟨c, hstands, hdecode⟩
  have hc : c = '\uFFFD' := by simpa [StandsFor] using hstands
  rw [hdecode, hc]

/-- A plus sign in front of the digits is no part of a reference, but is read like one. -/
theorem decodeText_plus :
    decodeText "&#+65;".toList = ['A'] ∧ ∀ n, ¬Writes [] "#+65".toList n := by
  refine ⟨by decide +kernel, fun n hwrites => ?_⟩
  have hmark : ∀ x tail, "+65".toList = x :: tail → ¬(x = 'x' ∨ x = 'X') := by
    rintro x tail hcons (rfl | rfl) <;> cases hcons
  rcases (writes_decimal_iff hmark).1 hwrites with ⟨digits, rfl, hnumeral⟩
  exact not_numeral (by decide) rfl hnumeral

end Reference
end TemplateMarkup
