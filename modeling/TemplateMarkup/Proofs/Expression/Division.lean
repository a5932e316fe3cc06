import TemplateMarkup.Proofs.Expression.PatternCache
import TemplateMarkup.Proofs.Text.Cutting

/-!
# Dividing a text at its interpolations

Which interpolations a text is divided at can be said without the search for them. This file
defines:

* `Interpolation.Leads d cs`, `Interpolation.Occurs d cs` — an interpolation stands at the front of
  `cs`, or anywhere in it,
* `Interpolation.Shortest d body` — the first closing delimiter behind the body is the one that
  ends it,
* `Interpolation.Divides d cs parts last` — `cs` is made of `parts`, a literal text and a body each,
  and of `last`; each part is the first and shortest from where the one in front of it ends.

`find?_eq_some_spec` and `find?_eq_none_iff` say what one search finds, `exists_divides` follows the
searches to the end of the text, and `Interpolated.parseAfter_divides` is about the whole result.
-/

namespace TemplateMarkup
namespace Interpolation

variable {d : Delimiters} {f : Found} {cs last : List Char}

/-! ## Interpolations -/

/-- An interpolation stands at the front. -/
def Leads (d : Delimiters) (cs : List Char) : Prop :=
  ∃ body rest, body ≠ [] ∧ cs = d.opening.toList ++ body ++ d.closing.toList ++ rest

/-- An interpolation stands somewhere: an opening delimiter, at least one character, and a closing
delimiter. -/
def Occurs (d : Delimiters) (cs : List Char) : Prop :=
  ∃ front back, cs = front ++ back ∧ Leads d back

/-- Behind the first character of the body there is no closing delimiter before the one that ends
it, not even one that overlaps with that one. -/
structure Shortest (d : Delimiters) (body : List Char) : Prop where
  nonempty : body ≠ []
  first : ∀ front back, front ≠ [] →
    body ++ d.closing.toList = front ++ d.closing.toList ++ back → front = body

/-- A literal text, perhaps empty, and the body of the interpolation behind it. -/
structure Part where
  before : List Char
  body : List Char

/-- A part as it is written. -/
def Part.chars (d : Delimiters) (p : Part) : List Char :=
  p.before ++ d.opening.toList ++ p.body ++ d.closing.toList

/-- What a text is divided into. -/
inductive Divides (d : Delimiters) : List Char → List Part → List Char → Prop
  /-- Nothing is left to divide. -/
  | last {cs : List Char} (free : ¬Occurs d cs) : Divides d cs [] cs
  /-- The first part: no interpolation starts further in front, and its body is no longer than it
  has to be. -/
  | next {p : Part} {rest last : List Char} {parts : List Part} (shortest : Shortest d p.body)
      (leftmost : ∀ front back, p.chars d ++ rest = front ++ back → Leads d back →
        p.before.length ≤ front.length)
      (more : Divides d rest parts last) : Divides d (p.chars d ++ rest) (p :: parts) last

/-- Nothing is lost. -/
theorem Divides.chars_eq {parts : List Part} (h : Divides d cs parts last) :
    cs = parts.flatMap (Part.chars d) ++ last := by
  induction h with
  | last free => rfl
  | next shortest leftmost more ih =>
      rw [List.flatMap_cons, List.append_assoc, ← ih]

theorem Divides.ne_nil {parts : List Part} (h : Divides d cs parts last) (hoccurs : Occurs d cs) :
    parts ≠ [] := by
  cases h with
  | last free => exact absurd hoccurs free
  | next shortest leftmost more => exact List.cons_ne_nil _ _

/-! ## One search -/

/-- The part that a search finds. -/
def Found.part (f : Found) : Part :=
  { before := f.before, body := f.body }

theorem shortest_cons {c : Char} {body : List Char} (h : Text.FirstAt d.closing.toList body) :
    Shortest d (c :: body) := by
  refine ⟨List.cons_ne_nil c body, ?_⟩
  intro front back hne heq
  cases front with
  | nil => exact absurd rfl hne
  | cons e front =>
      rw [List.cons_append, List.cons_append, List.cons_append, List.cons.injEq] at heq
      rw [heq.1, h front back heq.2]

/-- An interpolation that leads has its opening delimiter at the front. -/
theorem Leads.opening {back : List Char} (h : Leads d back) :
    ∃ rest, back = d.opening.toList ++ rest := by
  rcases h with ⟨body, rest, _, rfl⟩
  exact ⟨body ++ d.closing.toList ++ rest, by simp⟩

/-- What is found is the first interpolation, and the shortest one there. -/
theorem find?_eq_some_spec (h : find? d cs = some f) :
    cs = f.part.chars d ++ f.rest ∧ Shortest d f.body ∧
      ∀ front back, cs = front ++ back → Leads d back → f.before.length ≤ front.length := by
  have hcs := (find?_eq_some h).1
  unfold find? at h
  split at h
  · next before c behind hopen =>
      split at h
      · next body rest hclose =>
          cases h
          rcases Text.breakOn?_eq_some_iff.1 hopen with ⟨hbefore, hfirst⟩
          refine ⟨hcs, shortest_cons (Text.breakOn?_eq_some_iff.1 hclose).2, ?_⟩
          intro front back heq hleads
          rcases hleads.opening with ⟨more, rfl⟩
          have hsame : before ++ d.opening.toList ++ c :: behind =
              front ++ d.opening.toList ++ more := by
            rw [← hbefore, heq, List.append_assoc]
          exact hfirst.length_le hsame
      · cases h
  · cases h

theorem find?_eq_none_iff : find? d cs = none ↔ ¬Occurs d cs := by
  constructor
  · rintro h ⟨front, back, rfl, body, rest, hbody, rfl⟩
    unfold find? at h
    cases hopen : Text.breakOn? d.opening.toList
        (front ++ (d.opening.toList ++ body ++ d.closing.toList ++ rest)) with
    | none =>
        exact Text.breakOn?_eq_none_iff.1 hopen
          ⟨front, body ++ d.closing.toList ++ rest, by simp⟩
    | some cut =>
        rcases cut with ⟨before, behind⟩
        rcases Text.breakOn?_eq_some_iff.1 hopen with ⟨heq, hfirst⟩
        have hsame : before ++ d.opening.toList ++ behind =
            front ++ d.opening.toList ++ (body ++ d.closing.toList ++ rest) := by
          rw [← heq]
          simp only [List.append_assoc]
        -- The first opening delimiter has the body and the closing delimiter behind it as well.
        rcases hfirst.rest_eq hsame with ⟨more, rfl⟩
        rcases List.exists_cons_of_ne_nil (List.append_ne_nil_of_right_ne_nil more hbody) with
          ⟨c, inside, hinside⟩
        have hbehind : more ++ (body ++ d.closing.toList ++ rest) =
            c :: (inside ++ d.closing.toList ++ rest) := by
          rw [← List.append_assoc, ← List.append_assoc, hinside]
          rfl
        rw [hopen, hbehind] at h
        dsimp only at h
        split at h
        · cases h
        · next hclose =>
            exact Text.breakOn?_eq_none_iff.1 hclose ⟨inside, rest, rfl⟩
  · intro h
    rw [Option.eq_none_iff_forall_ne_some]
    intro f hsome
    rcases find?_eq_some hsome with ⟨hcs, hbody⟩
    exact h ⟨f.before, _, by simpa using hcs, f.body, f.rest, hbody, by simp⟩

/-! ## All searches -/

theorem pieces_of_none (h : find? d cs = none) : pieces d cs = literal cs := by
  rw [pieces]
  split
  · rfl
  · next hsome =>
      rw [h] at hsome
      cases hsome

theorem pieces_of_some (h : find? d cs = some f) :
    pieces d cs = literal f.before ++
      .binding (String.ofList (FilterChain.compileChars (Text.trim f.body))) ::
        pieces d f.rest := by
  rw [pieces]
  split
  · next hnone =>
      rw [h] at hnone
      cases hnone
  · next hsome =>
      cases h.symm.trans hsome
      rfl

/-- Literal and binding of a part. -/
def Part.pieces (p : Part) : List Piece :=
  [.literal (String.ofList p.before),
    .binding (FilterChain.compile (String.ofList (Text.trim p.body)))]

/-- Literals and bindings in order, where a literal that is empty is left out. -/
def piecesOf (parts : List Part) (last : List Char) : List Piece :=
  (parts.flatMap Part.pieces ++ [Piece.literal (String.ofList last)]).filter (· ≠ Piece.literal "")

theorem literal_eq (cs : List Char) :
    literal cs = [Piece.literal (String.ofList cs)].filter (· ≠ Piece.literal "") := by
  cases cs with
  | nil => rfl
  | cons c cs => simp [literal]

theorem piecesOf_cons (p : Part) (parts : List Part) (last : List Char) :
    piecesOf (p :: parts) last = literal p.before ++
      .binding (String.ofList (FilterChain.compileChars (Text.trim p.body))) ::
        piecesOf parts last := by
  rw [literal_eq, piecesOf, List.flatMap_cons, List.append_assoc, List.filter_append, ← piecesOf,
    Part.pieces, FilterChain.compile, String.toList_ofList]
  cases p.before with
  | nil => simp
  | cons c before => simp

/-- Searching on behind each interpolation divides the whole text. -/
theorem exists_divides (d : Delimiters) (cs : List Char) :
    ∃ parts last, Divides d cs parts last ∧ pieces d cs = piecesOf parts last := by
  induction hlength : cs.length using Nat.strongRecOn generalizing cs with
  | ind n ih =>
      subst hlength
      cases hfind : find? d cs with
      | none =>
          refine ⟨[], cs, .last (find?_eq_none_iff.1 hfind), ?_⟩
          rw [pieces_of_none hfind, literal_eq]
          rfl
      | some f =>
          rcases ih _ (find?_length hfind) f.rest rfl with ⟨parts, last, hdivides, hpieces⟩
          rcases find?_eq_some_spec hfind with ⟨hcs, hshortest, hleftmost⟩
          refine ⟨f.part :: parts, last, ?_, ?_⟩
          · rw [hcs] at hleftmost ⊢
            exact .next hshortest hleftmost hdivides
          · rw [pieces_of_some hfind, piecesOf_cons, hpieces]
            rfl

end Interpolation

namespace Interpolated

open Interpolation

theorem parse?_eq_none_iff {d : Delimiters} {text : String} :
    parse? d text = none ↔ ¬Occurs d text.toList := by
  rw [← find?_eq_none_iff, parse?]
  cases find? d text.toList with
  | none => simp
  | some f => simp

theorem parse?_of_occurs {d : Delimiters} {text : String} (h : Occurs d text.toList) :
    parse? d text = some ⟨Interpolation.pieces d text.toList⟩ := by
  have hfind : find? d text.toList ≠ none := fun hnone => find?_eq_none_iff.1 hnone h
  rw [parse?, if_pos (Option.isSome_iff_ne_none.2 hfind)]

/-- A text is divided at its interpolations. There is no result exactly if there is none. Otherwise
the text is a row of literals and interpolations, each interpolation the first and shortest from
where the one in front of it ends, and the pieces and operands are those of this row in its order,
without the empty literals. Texts that were split before make no difference, unless their delimiters
overlap with those of this one. -/
theorem parseAfter_divides (chosen : Option Delimiters) (text : String) :
    (parseAfter [] chosen text = none ↔ ¬Occurs (chosen.getD .braces) text.toList) ∧
    (Occurs (chosen.getD .braces) text.toList →
      ∃ (parts : List Part) (last : List Char) (t : Interpolated),
        parts ≠ [] ∧
        text.toList = parts.flatMap (Part.chars (chosen.getD .braces)) ++ last ∧
        Divides (chosen.getD .braces) text.toList parts last ∧
        parseAfter [] chosen text = some t ∧
        t.pieces = piecesOf parts last ∧
        t.expression = "+".intercalate ((piecesOf parts last).map operand)) ∧
    ∀ history, (∀ d ∈ chosen, ∀ e ∈ pairsOf history, ¬d.Overlaps e ∧ ¬e.Overlaps d) →
      parseAfter history chosen text = parseAfter [] chosen text := by
  have hfresh : parseAfter [] chosen text = parse? (chosen.getD .braces) text := by
    cases chosen with
    | none => rfl
    | some d => rfl
  rw [hfresh]
  refine ⟨parse?_eq_none_iff, fun hoccurs => ?_, fun history hapart => ?_⟩
  · rcases exists_divides (chosen.getD .braces) text.toList with ⟨parts, last, hdivides, hpieces⟩
    refine ⟨parts, last, _, hdivides.ne_nil hoccurs, hdivides.chars_eq, hdivides,
      parse?_of_occurs hoccurs, hpieces, ?_⟩
    rw [expression, hpieces]
  · cases chosen with
    | none => rfl
    | some d => exact parseAfter_eq_of_not_overlaps (hapart d rfl) text

/-- A body is at least one character long, so the first two of four closing braces do not end it:
the body is one brace, and one brace is left. -/
theorem parseAfter_divides_four_braces :
    Occurs .braces "\x7b\x7b\x7d\x7d\x7d\x7d".toList ∧
      parseAfter [] none "\x7b\x7b\x7d\x7d\x7d\x7d" =
        some ⟨[.binding "\x7d", .literal "\x7d"]⟩ ∧
      ∃ parts last, parts ≠ [] ∧
        Divides .braces "\x7b\x7b\x7d\x7d\x7d\x7d".toList parts last := by
  have hoccurs : Occurs .braces "\x7b\x7b\x7d\x7d\x7d\x7d".toList :=
    ⟨[], _, rfl, ['\x7d'], ['\x7d'], by decide, by decide⟩
  refine ⟨hoccurs, by decide +kernel, ?_⟩
  rcases (parseAfter_divides none "\x7b\x7b\x7d\x7d\x7d\x7d").2.1 hoccurs with
    ⟨parts, last, _, hne, _, hdivides, _⟩
  exact ⟨parts, last, hne, hdivides⟩

end Interpolated
end TemplateMarkup
