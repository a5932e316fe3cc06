/-!
# Numeric character references

A numeric reference is `#` and decimal digits, or `#x` and hexadecimal digits. The number may have
one plus sign and has to fit in 32 bits. Zero and the numbers of no character stand for the
replacement character.
-/

namespace TemplateMarkup
namespace Reference

/-- The value of an ASCII digit below `base`; digits past nine are letters of either case. -/
def digit? (base : Nat) (c : Char) : Option Nat :=
  let value? :=
    if '0' ≤ c ∧ c ≤ '9' then some (c.toNat - '0'.toNat)
    else if 'a' ≤ c ∧ c ≤ 'f' then some (c.toNat - 'a'.toNat + 10)
    else if 'A' ≤ c ∧ c ≤ 'F' then some (c.toNat - 'A'.toNat + 10)
    else none
  value?.filter (· < base)

/-- The number that `value` followed by the digits `cs` is written as. -/
def digitsFrom? (base value : Nat) : List Char → Option Nat
  | [] => some value
  | c :: cs =>
      match digit? base c with
      | some d => digitsFrom? base (base * value + d) cs
      | none => none

/-- One or more digits, with at most one plus sign before them, of a number of 32 bits. -/
def number? (base : Nat) (cs : List Char) : Option Nat :=
  let digits := match cs with
    | '+' :: digits => digits
    | digits => digits
  match digits with
  | [] => none
  | digits => (digitsFrom? base 0 digits).filter (· < UInt32.size)

/-- The character that stands for zero and for the numbers of no character. -/
def replacement : Char := '\uFFFD'

/-- The character with a number. -/
def charOf (code : Nat) : Char :=
  if code = 0 then replacement
  else if h : code.isValidChar then Char.ofNatAux code h
  else replacement

/-- The character of the reference `#body`. -/
def numeric? (body : List Char) : Option Char :=
  let code? := match body with
    | 'x' :: hex => number? 16 hex
    | 'X' :: hex => number? 16 hex
    | decimal => number? 10 decimal
  code?.map charOf

end Reference
end TemplateMarkup
