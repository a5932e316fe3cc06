/-!
# Text

Readers consume a `List Char`; positions count UTF-8 bytes. This file holds what they share:

* `byteLength`, `splitBytes?` for counting and cutting in bytes,
* `isBlank`, `trim` for blank characters,
* `after?`, `breakOn?`, `breakWithin?`, `splitAll` for finding a mark and cutting there.

Every cutting function loses nothing: its parts, with the mark between them, are the text again.
-/

namespace TemplateMarkup
namespace Text

/-! ## Bytes -/

/-- Number of UTF-8 bytes of `cs`. -/
def byteLength (cs : List Char) : Nat :=
  cs.foldl (fun n c => n + c.utf8Size) 0

theorem foldl_utf8Size (cs : List Char) (n : Nat) :
    cs.foldl (fun n c => n + c.utf8Size) n = n + byteLength cs := by
  induction cs generalizing n with
  | nil => rfl
  | cons c cs ih =>
      have h : byteLength (c :: cs) = (0 + c.utf8Size) + byteLength cs := ih (0 + c.utf8Size)
      rw [List.foldl_cons, ih, h]
      omega

@[simp] theorem byteLength_nil : byteLength [] = 0 := rfl

@[simp] theorem byteLength_cons (c : Char) (cs : List Char) :
    byteLength (c :: cs) = c.utf8Size + byteLength cs := by
  have h := foldl_utf8Size cs (0 + c.utf8Size)
  simpa [byteLength] using h

@[simp] theorem byteLength_append (cs ds : List Char) :
    byteLength (cs ++ ds) = byteLength cs + byteLength ds := by
  induction cs with
  | nil => simp
  | cons c cs ih => simp [ih, Nat.add_assoc]

/-- Splits `n` bytes off the front; `none` if no character ends there. -/
def splitBytes? (n : Nat) (front : List Char) : List Char → Option (List Char × List Char)
  | [] => if n = 0 then some (front.reverse, []) else none
  | c :: cs =>
      if n = 0 then some (front.reverse, c :: cs)
      else if c.utf8Size ≤ n then splitBytes? (n - c.utf8Size) (c :: front) cs
      else none

/-! ## Blanks -/

/-- The characters with the Unicode property `White_Space`. -/
def isBlank (c : Char) : Bool :=
  (0x09 ≤ c.toNat && c.toNat ≤ 0x0D) || c.toNat == 0x20 || c.toNat == 0x85 || c.toNat == 0xA0 ||
  c.toNat == 0x1680 || (0x2000 ≤ c.toNat && c.toNat ≤ 0x200A) || c.toNat == 0x2028 ||
  c.toNat == 0x2029 || c.toNat == 0x202F || c.toNat == 0x205F || c.toNat == 0x3000

/-- The blanks that separate the parts of a tag: space, tab, line feed, form feed, return. -/
def isTagBlank (c : Char) : Bool :=
  c == ' ' || c == '\t' || c == '\n' || c == '\x0c' || c == '\r'

/-- Drops the blanks at both ends. -/
def trim (cs : List Char) : List Char :=
  ((cs.dropWhile isBlank).reverse.dropWhile isBlank).reverse

/-! ## Finding a mark -/

/-- What follows `lead` at the front of `cs`. -/
def after? : List Char → List Char → Option (List Char)
  | [], cs => some cs
  | _ :: _, [] => none
  | l :: lead, c :: cs => if l = c then after? lead cs else none

theorem after?_eq_some {lead cs rest : List Char} (h : after? lead cs = some rest) :
    cs = lead ++ rest := by
  induction lead generalizing cs with
  | nil => simpa [after?] using h
  | cons l lead ih =>
      cases cs with
      | nil => simp [after?] at h
      | cons c cs =>
          by_cases hc : l = c
          · simp only [after?, hc, if_true] at h
            simp [hc, ih h]
          · simp [after?, hc] at h

@[simp] theorem after?_append (lead rest : List Char) : after? lead (lead ++ rest) = some rest := by
  induction lead with
  | nil => rfl
  | cons l lead ih => simp [after?, ih]

/-- Collects characters into `front`, newest first, up to the first occurrence of `mark`. -/
def breakOnto (mark front : List Char) : List Char → Option (List Char × List Char)
  | [] => (after? mark []).map (front.reverse, ·)
  | c :: cs =>
      match after? mark (c :: cs) with
      | some rest => some (front.reverse, rest)
      | none => breakOnto mark (c :: front) cs

/-- What stands before and after the first occurrence of `mark`. -/
def breakOn? (mark cs : List Char) : Option (List Char × List Char) :=
  breakOnto mark [] cs

theorem breakOnto_eq_some {mark front cs before rest : List Char}
    (h : breakOnto mark front cs = some (before, rest)) :
    front.reverse ++ cs = before ++ mark ++ rest := by
  induction cs generalizing front with
  | nil =>
      cases ha : after? mark [] with
      | none => simp [breakOnto, ha] at h
      | some r =>
          simp only [breakOnto, ha, Option.map_some, Option.some.injEq, Prod.mk.injEq] at h
          rw [← h.1, ← h.2, List.append_assoc, ← after?_eq_some ha]
  | cons c cs ih =>
      cases ha : after? mark (c :: cs) with
      | none =>
          simp only [breakOnto, ha] at h
          simpa using ih h
      | some r =>
          simp only [breakOnto, ha, Option.some.injEq, Prod.mk.injEq] at h
          rw [← h.1, ← h.2, List.append_assoc, ← after?_eq_some ha]

theorem breakOn?_eq_some {mark cs before rest : List Char}
    (h : breakOn? mark cs = some (before, rest)) : cs = before ++ mark ++ rest := by
  simpa using breakOnto_eq_some h

theorem breakOn?_length {mark cs before rest : List Char}
    (h : breakOn? mark cs = some (before, rest)) :
    cs.length = before.length + mark.length + rest.length := by
  have h := congrArg List.length (breakOn?_eq_some h)
  simp only [List.length_append] at h
  exact h

/-- Collects characters into `front` up to the first `mark` that has at most `limit` bytes
before it. -/
def breakWithinOnto (mark : Char) (limit : Nat) (front : List Char) :
    List Char → Option (List Char × List Char)
  | [] => none
  | c :: cs =>
      if c = mark then some (front.reverse, cs)
      else if c.utf8Size ≤ limit then breakWithinOnto mark (limit - c.utf8Size) (c :: front) cs
      else none

/-- What stands before and after the first `mark`, if at most `limit` bytes stand before it. -/
def breakWithin? (mark : Char) (limit : Nat) (cs : List Char) : Option (List Char × List Char) :=
  breakWithinOnto mark limit [] cs

theorem breakWithinOnto_eq_some {mark : Char} {limit : Nat} {front cs before rest : List Char}
    (h : breakWithinOnto mark limit front cs = some (before, rest)) :
    front.reverse ++ cs = before ++ mark :: rest := by
  induction cs generalizing front limit with
  | nil => simp [breakWithinOnto] at h
  | cons c cs ih =>
      unfold breakWithinOnto at h
      split at h
      · next hc => simp_all
      · split at h
        · simpa using ih h
        · simp at h

theorem breakWithin?_eq_some {mark : Char} {limit : Nat} {cs before rest : List Char}
    (h : breakWithin? mark limit cs = some (before, rest)) : cs = before ++ mark :: rest := by
  simpa using breakWithinOnto_eq_some h

/-- The parts of `cs` between the occurrences of `mark`; always at least one part. -/
def splitAll (mark : Char) (cs : List Char) : List (List Char) :=
  cs.foldr
    (fun c parts =>
      if c = mark then [] :: parts
      else match parts with
        | [] => [[c]]
        | part :: parts => (c :: part) :: parts)
    [[]]

/-- The lines of `cs`: a line feed ends a line, together with one return before it, and what
follows the last line feed is a line unless it is empty. -/
def lines (cs : List Char) : List (List Char) :=
  let parts := splitAll '\n' cs
  let ended := parts.dropLast.map fun part =>
    if part.getLast? = some '\r' then part.dropLast else part
  match parts.getLast? with
  | some (c :: part) => ended ++ [c :: part]
  | _ => ended

end Text
end TemplateMarkup
