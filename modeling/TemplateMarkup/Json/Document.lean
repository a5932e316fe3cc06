/-!
# JSON documents

Strict reading of JSON text: no comments, no trailing commas, and nothing but blanks around the
value. A string is kept as the units it is written with, because an escape may name half of a
surrogate pair; `StringUnit.text?` is the text of a string that names whole characters only.
-/

namespace TemplateMarkup
namespace Document

/-- A unit of a string: a character, or a code unit written as an escape. -/
inductive StringUnit where
  | char (c : Char)
  | code (n : Nat)
  deriving DecidableEq, Repr

inductive Value where
  | null
  | bool (value : Bool)
  /-- A number; its value has no use here. -/
  | number
  | string (units : List StringUnit)
  | array (items : List Value)
  | object (members : List (List StringUnit × Value))
  deriving Repr

namespace StringUnit

/-- The text of a string: escaped surrogates have to come in pairs. -/
def text? : List StringUnit → Option (List Char)
  | [] => some []
  | .char c :: units => (text? units).map (c :: ·)
  | .code high :: .code low :: units =>
      if 0xD800 ≤ high ∧ high < 0xDC00 then
        if 0xDC00 ≤ low ∧ low < 0xE000 then
          (text? units).map
            (Char.ofNat (0x10000 + (high - 0xD800) * 0x400 + (low - 0xDC00)) :: ·)
        else none
      else if 0xDC00 ≤ high ∧ high < 0xE000 then none
      else (text? (.code low :: units)).map (Char.ofNat high :: ·)
  | .code n :: units =>
      if 0xD800 ≤ n ∧ n < 0xE000 then none else (text? units).map (Char.ofNat n :: ·)

end StringUnit

/-! ## Tokens -/

def isBlank (c : Char) : Bool :=
  c == ' ' || c == '\t' || c == '\n' || c == '\r'

def skipBlanks (cs : List Char) : List Char :=
  cs.dropWhile isBlank

/-- The value of a hexadecimal digit. -/
def hexDigit? (c : Char) : Option Nat :=
  if '0' ≤ c ∧ c ≤ '9' then some (c.toNat - '0'.toNat)
  else if 'a' ≤ c ∧ c ≤ 'f' then some (c.toNat - 'a'.toNat + 10)
  else if 'A' ≤ c ∧ c ≤ 'F' then some (c.toNat - 'A'.toNat + 10)
  else none

/-- The code unit that four hexadecimal digits name. -/
def hexUnit? (a b c d : Char) : Option Nat := do
  let a ← hexDigit? a
  let b ← hexDigit? b
  let c ← hexDigit? c
  let d ← hexDigit? d
  return ((a * 16 + b) * 16 + c) * 16 + d

/-- The character that a short escape names. -/
def shortEscape? : Char → Option Char
  | '"' => some '"'
  | '\\' => some '\\'
  | '/' => some '/'
  | 'b' => some '\x08'
  | 'f' => some '\x0c'
  | 'n' => some '\n'
  | 'r' => some '\r'
  | 't' => some '\t'
  | _ => none

/-- Reads a string whose opening quote has been read; `units` is newest first. -/
def readString? (units : List StringUnit) : List Char → Option (List StringUnit × List Char)
  | [] => none
  | '"' :: cs => some (units.reverse, cs)
  | '\\' :: 'u' :: a :: b :: c :: d :: cs =>
      match hexUnit? a b c d with
      | some n => readString? (.code n :: units) cs
      | none => none
  | '\\' :: c :: cs =>
      match shortEscape? c with
      | some e => readString? (.char e :: units) cs
      | none => none
  | c :: cs => if c.toNat < 0x20 ∨ c = '\\' then none else readString? (.char c :: units) cs

/-- Skips one or more digits. -/
def skipDigits? (cs : List Char) : Option (List Char) :=
  match cs with
  | c :: _ => if c.isDigit then some (cs.dropWhile Char.isDigit) else none
  | [] => none

/-- Skips the whole part of a number: a zero, or digits that do not start with one. -/
def skipWhole? (cs : List Char) : Option (List Char) :=
  match cs with
  | '0' :: cs => some cs
  | cs => skipDigits? cs

/-- Skips a fraction, if there is one. -/
def skipFraction? (cs : List Char) : Option (List Char) :=
  match cs with
  | '.' :: cs => skipDigits? cs
  | cs => some cs

/-- Skips an exponent, if there is one. -/
def skipExponent? (cs : List Char) : Option (List Char) :=
  let skipSigned := fun (cs : List Char) => match cs with
    | '+' :: cs => skipDigits? cs
    | '-' :: cs => skipDigits? cs
    | cs => skipDigits? cs
  match cs with
  | 'e' :: cs => skipSigned cs
  | 'E' :: cs => skipSigned cs
  | cs => some cs

def skipNumber? (cs : List Char) : Option (List Char) :=
  let cs := match cs with
    | '-' :: cs => cs
    | cs => cs
  ((skipWhole? cs).bind skipFraction?).bind skipExponent?

/-! ## Values -/

mutual

/-- Reads a value behind blanks; `room` bounds the number of readings. -/
def readValue? (room : Nat) (cs : List Char) : Option (Value × List Char) :=
  match room with
  | 0 => none
  | room + 1 =>
      match skipBlanks cs with
      | '"' :: cs => (readString? [] cs).map fun (units, rest) => (.string units, rest)
      | '[' :: cs =>
          match skipBlanks cs with
          | ']' :: rest => some (.array [], rest)
          | cs => (readItems? room [] cs).map fun (items, rest) => (.array items, rest)
      | '\x7b' :: cs =>
          match skipBlanks cs with
          | '\x7d' :: rest => some (.object [], rest)
          | cs => (readMembers? room [] cs).map fun (members, rest) => (.object members, rest)
      | 'n' :: 'u' :: 'l' :: 'l' :: rest => some (.null, rest)
      | 't' :: 'r' :: 'u' :: 'e' :: rest => some (.bool true, rest)
      | 'f' :: 'a' :: 'l' :: 's' :: 'e' :: rest => some (.bool false, rest)
      | cs => (skipNumber? cs).map fun rest => (.number, rest)

/-- Reads items up to the closing bracket, behind `items`, which is newest first. -/
def readItems? (room : Nat) (items : List Value) (cs : List Char) :
    Option (List Value × List Char) :=
  match room with
  | 0 => none
  | room + 1 =>
      match readValue? room cs with
      | none => none
      | some (item, rest) =>
          match skipBlanks rest with
          | ',' :: rest => readItems? room (item :: items) rest
          | ']' :: rest => some ((item :: items).reverse, rest)
          | _ => none

/-- Reads members up to the closing brace, behind `members`, which is newest first. -/
def readMembers? (room : Nat) (members : List (List StringUnit × Value)) (cs : List Char) :
    Option (List (List StringUnit × Value) × List Char) :=
  match room with
  | 0 => none
  | room + 1 =>
      match skipBlanks cs with
      | '"' :: cs =>
          match readString? [] cs with
          | none => none
          | some (name, rest) =>
              match skipBlanks rest with
              | ':' :: rest =>
                  match readValue? room rest with
                  | none => none
                  | some (value, rest) =>
                      match skipBlanks rest with
                      | ',' :: rest => readMembers? room ((name, value) :: members) rest
                      | '\x7d' :: rest => some (((name, value) :: members).reverse, rest)
                      | _ => none
              | _ => none
      | _ => none

end

/-- Reads a document. Every second reading takes at least one character, which bounds their
number. -/
def parse? (text : String) : Option Value :=
  match readValue? (2 * text.toList.length + 2) text.toList with
  | some (value, rest) => if rest.all isBlank then some value else none
  | none => none

end Document
end TemplateMarkup
