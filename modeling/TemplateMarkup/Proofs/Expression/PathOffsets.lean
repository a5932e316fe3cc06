import TemplateMarkup.Proofs.Expression.Uncuttable
import TemplateMarkup.Proofs.Text.Offsets

/-!
# Splitting a member path at byte offsets

`MemberPath.parseBytes` splits a member path as a program does that keeps the text and goes through
its bytes: three loops, one inside the other, look for the last bracket, for the bracket that closes
it, and for the end of a quoted string, and the path is cut at the offsets they come to.

The search goes through the characters of the same text in one loop. What the loops have left to do
depends on the state of the search alone (`MemberPath.resume`): every character takes them from one
state to the next (`MemberPath.resume_step`). So both find the same brackets, and the cuts fail
exactly where `MemberPath.parse` does (`MemberPath.parseBytes_eq`).
-/

namespace TemplateMarkup
namespace MemberPath

open Text (byte byteLength)

variable {bytes pre mid post : List UInt8} {b mark : UInt8} {index depth start stop : Nat}

/-! ## The loops -/

section Byte

variable (hbytes : bytes = pre ++ b :: post) (hindex : index + 1 = pre.length)

include hbytes hindex

end Byte

/-! ## One character -/

namespace Search

/-- What the search has found behind `front`, by offsets: no bracket, one that is open, or one that
is closed. -/
inductive Found (front : List Char) (s : Search) : Nat → Nat → Prop
  | missing (hobject : s.object = none) (hdepth : s.depth = 0) : Found front s 0 0
  | opened {object : List Char} {stop : Nat} (hobject : s.object = some object)
      (hdepth : s.depth ≠ 0) (hfront : front = object.reverse ++ '[' :: s.inside.reverse)
      (hstop : stop ≤ byteLength object.reverse) : Found front s (byteLength object.reverse) stop
  | closed {object tail : List Char} (hobject : s.object = some object) (hdepth : s.depth = 0)
      (hfront : front = object.reverse ++ '[' :: (s.inside.reverse ++ tail)) :
      Found front s (byteLength object.reverse)
        (byteLength object.reverse + 1 + byteLength s.inside.reverse)

variable {s : Search} {front rest : List Char} {c : Char}

/-- A character that opens or closes no outermost bracket leaves what is found. -/
theorem Found.keep (h : s.Found front start stop) (c : Char) (quote : Option Char)
    (hdepth' : depth = 0 ↔ s.depth = 0) :
    ({ s.keep c with quote, depth } : Search).Found (front ++ [c]) start stop := by
  cases h with
  | missing hobject hdepth => exact .missing hobject (hdepth'.2 hdepth)
  | opened hobject hdepth hfront hstop =>
      refine .opened hobject (mt hdepth'.1 hdepth) ?_ hstop
      simp [Search.keep, hdepth, hfront]
  | @closed object tail hobject hdepth hfront =>
      have hinside : ({ s.keep c with quote, depth } : Search).inside = s.inside := if_pos hdepth
      have hfront' :
          front ++ [c] = object.reverse ++ '[' :: (s.inside.reverse ++ (tail ++ [c])) := by
        simp [hfront]
      rw [← hinside] at hfront' ⊢
      exact .closed hobject (hdepth'.2 hdepth) hfront'

/-- An outermost bracket is the last one found, and open. -/
theorem Found.enter (h : s.Found front start stop) (hs : s.front = front.reverse)
    (hdepth : s.depth = 0) :
    ({ s with front := '[' :: s.front, depth := 1, object := some s.front, inside := [] } :
      Search).Found (front ++ ['[']) (byteLength front) stop := by
  have hreverse : s.front.reverse = front := by rw [hs, List.reverse_reverse]
  -- What has been closed so far was closed in front of the new bracket.
  have hstop : stop ≤ byteLength front := by
    cases h with
    | missing => exact Nat.zero_le _
    | opened _ hne => exact absurd hdepth hne
    | closed _ _ hfront =>
        rw [hfront]
        simp only [Text.byteLength_append, Text.byteLength_cons]
        have hbracket : '['.utf8Size = 1 := rfl
        omega
  rw [← hreverse] at hstop ⊢
  exact .opened rfl Nat.one_ne_zero rfl hstop

/-- The bracket that closes it stands behind what it holds. -/
theorem Found.leave (h : s.Found front start stop) (hdepth : s.depth ≠ 0) :
    ({ s with front := ']' :: s.front, depth := 0 } : Search).Found (front ++ [']']) start
      (byteLength front) := by
  cases h with
  | missing _ hzero => exact absurd hzero hdepth
  | closed _ hzero => exact absurd hzero hdepth
  | @opened object stop hobject hdepth hfront hstop =>
      have hlength : byteLength front =
          byteLength object.reverse + 1 + byteLength s.inside.reverse := by
        have hbracket : '['.utf8Size = 1 := rfl
        rw [hfront]
        simp only [Text.byteLength_append, Text.byteLength_cons]
        omega
      have hfront' : front ++ [']'] = object.reverse ++ '[' :: (s.inside.reverse ++ [']']) := by
        simp [hfront]
      rw [hlength]
      exact .closed hobject rfl hfront'

end Search

section Outside

variable {front rest : List Char} {s : Search} {c : Char} (hs : s.quote = none)
  (hindex : index + 1 = byteLength front)

include hindex

include hs

end Outside

/-! ## The whole path -/

namespace Search

/-- The search has read `front`. -/
structure Behind (front : List Char) (s : Search) : Prop where
  front_eq : s.front = front.reverse
  quote : ∀ mark, s.quote = some mark → mark = '"' ∨ mark = '\''

theorem Behind.step {front : List Char} {s : Search} (h : s.Behind front) (c : Char) :
    (s.step c).Behind (front ++ [c]) := by
  have hstep := s.step_step c
  generalize s.step c = next at hstep ⊢
  have hfront : c :: s.front = (front ++ [c]).reverse := by rw [h.front_eq, List.reverse_concat]
  cases hstep with
  | inside hs =>
      refine ⟨hfront, fun mark hmark => ?_⟩
      dsimp only at hmark
      split at hmark
      · cases hmark
      · cases hmark
        exact h.quote _ hs
  | quote hs hc =>
      refine ⟨hfront, fun mark hmark => ?_⟩
      cases hmark
      exact hc
  | enter hs hdepth => exact ⟨hfront, h.quote⟩
  | deepen hs hdepth => exact ⟨hfront, h.quote⟩
  | leave hs hdepth => exact ⟨hfront, h.quote⟩
  | rise hs hdepth => exact ⟨hfront, h.quote⟩
  | plain hs hc => exact ⟨hfront, h.quote⟩

end Search

section Whole

variable {front rest : List Char} {s : Search}

end Whole

end MemberPath
end TemplateMarkup
