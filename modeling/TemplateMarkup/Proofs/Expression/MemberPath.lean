import TemplateMarkup.Expression.MemberPath
import TemplateMarkup.Proofs.Text.Cutting

/-!
# Where a member path is split

A member path is a name and the members that are taken of it, one after the other. This file says
what such a path is without saying how it is split:

* `MemberPath.Balanced` — what can stand between the brackets of a member,
* `MemberPath.Segment`, `MemberPath.Written` — a member, and a whole path, as written,

and shows that a path is split at its last member (`MemberPath.Written.parse_eq`) and assigned to
accordingly (`MemberPath.assign_written`). The search for the last bracket does not stop at
anything that is balanced (`MemberPath.Balanced.foldl_step`), so that it comes back to where it
started behind every member (`MemberPath.Search.Idle.foldl_step_segment`).
-/

namespace TemplateMarkup
namespace MemberPath

variable {c mark : Char} {cs name inner : List Char}

/-! ## Paths -/

/-- What the search for brackets does not just pass. -/
def marks : List Char :=
  ['[', ']', '"', '\'']

theorem plain_of_not_mem (hc : c ∉ marks) : (c ≠ '"' ∧ c ≠ '\'') ∧ c ≠ '[' ∧ c ≠ ']' := by
  simp only [marks, List.mem_cons, List.not_mem_nil, or_false, not_or] at hc
  exact ⟨⟨hc.2.2.1, hc.2.2.2⟩, hc.1, hc.2.1⟩

/-- Text whose brackets are balanced; those in quoted strings do not count. A quoted string runs to
the next quote of its kind. -/
inductive Balanced : List Char → Prop
  | nil : Balanced []
  | plain {c : Char} {cs : List Char} (hc : c ∉ marks) (hcs : Balanced cs) : Balanced (c :: cs)
  | quoted {mark : Char} {body cs : List Char} (hmark : mark = '"' ∨ mark = '\'')
      (hbody : mark ∉ body) (hcs : Balanced cs) : Balanced (mark :: (body ++ mark :: cs))
  | bracketed {inner cs : List Char} (hinner : Balanced inner) (hcs : Balanced cs) :
      Balanced ('[' :: (inner ++ ']' :: cs))

/-- A name: some characters, none of which is a bracket, a point, a quote or a blank. -/
structure IsName (name : List Char) : Prop where
  ne_nil : name ≠ []
  not_mem : ∀ mark ∈ '.' :: marks, mark ∉ name
  not_blank : ∀ c ∈ name, Text.isBlank c = false

theorem IsName.plain (h : IsName name) (hc : c ∈ name) : c ∉ marks := fun hmark =>
  h.not_mem c (List.mem_cons_of_mem _ hmark) hc

theorem IsName.point_not_mem (h : IsName name) : '.' ∉ name :=
  h.not_mem '.' List.mem_cons_self

/-- A member as written: `.name` or `[inner]`. -/
inductive Segment where
  | point (name : List Char)
  | bracket (inner : List Char)
  deriving DecidableEq, Repr

namespace Segment

def chars : Segment → List Char
  | point name => '.' :: name
  | bracket inner => '[' :: (inner ++ [']'])

/-- The member as an expression: a name in double quotes, or what the brackets hold. -/
def key : Segment → List Char
  | point name => '"' :: (name ++ ['"'])
  | bracket inner => inner

def Valid : Segment → Prop
  | point name => IsName name
  | bracket inner => Balanced inner

end Segment

/-- A path as written: a name, and the members taken of it. -/
structure Written where
  base : List Char
  segments : List Segment
  isName : IsName base
  valid : ∀ segment ∈ segments, segment.Valid

/-- A name with members behind it. -/
def charsOf (base : List Char) (segments : List Segment) : List Char :=
  base ++ segments.flatMap Segment.chars

def Written.chars (p : Written) : List Char :=
  charsOf p.base p.segments

/-! ## The search for brackets -/

namespace Search

variable {s : Search}

/-- Behind `cs`, in the same quotes and brackets. -/
def pass (s : Search) (cs : List Char) : Search :=
  { s with
    front := cs.reverse ++ s.front
    inside := if s.depth = 0 then s.inside else cs.reverse ++ s.inside }

theorem pass_nil (s : Search) : s.pass [] = s := by
  simp [pass]

theorem pass_pass (s : Search) (cs ds : List Char) : (s.pass cs).pass ds = s.pass (cs ++ ds) := by
  by_cases hdepth : s.depth = 0
  · simp [pass, hdepth]
  · simp [pass, hdepth]

theorem pass_cons (s : Search) (c : Char) (cs : List Char) :
    (s.pass [c]).pass cs = s.pass (c :: cs) :=
  pass_pass s [c] cs

/-- What is passed has nothing to do with the quote a string ends with. -/
theorem pass_withQuote (s : Search) (quote : Option Char) (cs : List Char) :
    { s with quote }.pass cs = { s.pass cs with quote } :=
  rfl

theorem step_plain (hs : s.quote = none) (hc : c ∉ marks) : s.step c = s.pass [c] := by
  simp only [step, hs, plain_of_not_mem hc, or_false, if_false]
  rfl

/-- The text of a quoted string is passed. -/
theorem foldl_step_inside (hs : s.quote = some mark) (hcs : mark ∉ cs) :
    cs.foldl step s = s.pass cs := by
  induction cs generalizing s with
  | nil => exact s.pass_nil.symm
  | cons c cs ih =>
      rw [List.mem_cons, not_or] at hcs
      have hne : c ≠ mark := fun heq => hcs.1 heq.symm
      have hstep : s.step c = s.pass [c] := by
        simp only [step, hs, if_neg hne]
        rw [← hs]
        rfl
      calc
        (c :: cs).foldl step s = cs.foldl step (s.pass [c]) := by rw [List.foldl_cons, hstep]
        _ = (s.pass [c]).pass cs := ih hs hcs.2
        _ = s.pass (c :: cs) := s.pass_cons c cs

/-- A quoted string is passed. -/
theorem foldl_step_quoted (hs : s.quote = none) (hmark : mark = '"' ∨ mark = '\'')
    (hcs : mark ∉ cs) : (mark :: (cs ++ [mark])).foldl step s = s.pass (mark :: (cs ++ [mark])) := by
  have hopen : s.step mark = { s.pass [mark] with quote := some mark } := by
    simp only [step, hs, if_pos hmark]
    rfl
  have hinside : cs.foldl step { s.pass [mark] with quote := some mark } =
      { s.pass (mark :: cs) with quote := some mark } := by
    rw [foldl_step_inside rfl hcs, pass_withQuote, pass_cons]
  have hclose : ({ s.pass (mark :: cs) with quote := some mark } : Search).step mark =
      (s.pass (mark :: cs)).pass [mark] := by
    simp [step, pass, keep, hs]
  calc
    (mark :: (cs ++ [mark])).foldl step s = (cs.foldl step (s.step mark)).step mark := by
      rw [List.foldl_cons, List.foldl_append]
      rfl
    _ = (s.pass (mark :: cs)).pass [mark] := by rw [hopen, hinside, hclose]
    _ = s.pass (mark :: (cs ++ [mark])) := s.pass_pass (mark :: cs) [mark]

end Search

open Search in
/-- Inside brackets, what is balanced is passed. -/
theorem Balanced.foldl_step {s : Search} (h : Balanced cs) (hs : s.quote = none)
    (hdepth : 0 < s.depth) : cs.foldl step s = s.pass cs := by
  induction h generalizing s with
  | nil => exact s.pass_nil.symm
  | @plain c cs hc _ ih =>
      calc
        (c :: cs).foldl step s = cs.foldl step (s.pass [c]) := by
          rw [List.foldl_cons, step_plain hs hc]
        _ = (s.pass [c]).pass cs := ih hs hdepth
        _ = s.pass (c :: cs) := s.pass_cons c cs
  | @quoted mark body cs hmark hbody _ ih =>
      have hsplit : mark :: (body ++ mark :: cs) = (mark :: (body ++ [mark])) ++ cs := by simp
      rw [hsplit, ← s.pass_pass, List.foldl_append, foldl_step_quoted hs hmark hbody]
      exact ih hs hdepth
  | @bracketed inner cs _ _ ihInner ihRest =>
      have hne : s.depth ≠ 0 := Nat.ne_of_gt hdepth
      have hsplit : '[' :: (inner ++ ']' :: cs) = ('[' :: (inner ++ [']'])) ++ cs := by simp
      -- One level deeper, the inner brackets are passed like any other text.
      have hopen : s.step '[' = { s.pass ['['] with depth := s.depth + 1 } := by
        simp [step, hs, hne, Search.pass, keep]
      have hinside : inner.foldl step { s.pass ['['] with depth := s.depth + 1 } =
          { s.pass ('[' :: inner) with depth := s.depth + 1 } := by
        rw [ihInner (by exact hs) (Nat.succ_pos _), ← s.pass_cons]
        simp [Search.pass, hne]
      have hclose : ({ s.pass ('[' :: inner) with depth := s.depth + 1 } : Search).step ']' =
          s.pass ('[' :: (inner ++ [']'])) := by
        rw [← List.cons_append, ← s.pass_pass]
        simp [step, Search.pass, keep, hs, hne]
      have hbrackets :
          ('[' :: (inner ++ [']'])).foldl step s = s.pass ('[' :: (inner ++ [']'])) := by
        rw [List.foldl_cons, List.foldl_append, hopen, hinside]
        exact hclose
      rw [hsplit, ← s.pass_pass, List.foldl_append, hbrackets]
      exact ihRest hs hdepth

namespace Search

variable {s : Search} {segment : Segment} {segments : List Segment}

/-- Between two members: in no quotes and in no brackets. -/
structure Idle (s : Search) : Prop where
  quote : s.quote = none
  depth : s.depth = 0

/-- Text without quotes and brackets is passed. -/
theorem foldl_step_plain (hs : s.quote = none) (hcs : ∀ c ∈ cs, c ∉ marks) :
    cs.foldl step s = s.pass cs := by
  induction cs generalizing s with
  | nil => exact s.pass_nil.symm
  | cons c cs ih =>
      rw [List.forall_mem_cons] at hcs
      calc
        (c :: cs).foldl step s = cs.foldl step (s.pass [c]) := by
          rw [List.foldl_cons, step_plain hs hcs.1]
        _ = (s.pass [c]).pass cs := ih hs hcs.2
        _ = s.pass (c :: cs) := s.pass_cons c cs

/-- An outermost bracket becomes the last one found. -/
theorem Idle.foldl_step_bracket (h : s.Idle) (hinner : Balanced inner) :
    (Segment.bracket inner).chars.foldl step s =
      { s with
        front := (Segment.bracket inner).chars.reverse ++ s.front
        object := some s.front
        inside := inner.reverse } := by
  have hopen : s.step '[' =
      { s with front := '[' :: s.front, depth := 1, object := some s.front, inside := [] } := by
    simp [step, h.quote, h.depth]
  have hinside := hinner.foldl_step
    (s := { s with front := '[' :: s.front, depth := 1, object := some s.front, inside := [] })
    h.quote Nat.one_pos
  simp only [Segment.chars, List.foldl_cons, List.foldl_append, hopen, hinside, List.foldl_nil]
  simp [step, pass, h.quote, h.depth]

/-- Behind a member the search is between two members again. -/
theorem Idle.foldl_step_segment (h : s.Idle) (hsegment : segment.Valid) :
    (segment.chars.foldl step s).Idle ∧
      (segment.chars.foldl step s).front = segment.chars.reverse ++ s.front := by
  cases segment with
  | point name =>
      have hplain : ∀ c ∈ (Segment.point name).chars, c ∉ marks := by
        intro c hc
        rcases List.mem_cons.1 hc with rfl | hmem
        · decide
        · exact hsegment.plain hmem
      rw [foldl_step_plain h.quote hplain]
      exact ⟨⟨h.quote, h.depth⟩, rfl⟩
  | bracket inner =>
      rw [h.foldl_step_bracket hsegment]
      exact ⟨⟨h.quote, h.depth⟩, rfl⟩

theorem Idle.foldl_step_segments (h : s.Idle) (hsegments : ∀ segment ∈ segments, segment.Valid) :
    ((segments.flatMap Segment.chars).foldl step s).Idle ∧
      ((segments.flatMap Segment.chars).foldl step s).front =
        (segments.flatMap Segment.chars).reverse ++ s.front := by
  induction segments generalizing s with
  | nil => exact ⟨h, rfl⟩
  | cons segment segments ih =>
      rcases h.foldl_step_segment (hsegments segment List.mem_cons_self) with ⟨hidle, hfront⟩
      rcases ih hidle fun other hother => hsegments other (List.mem_cons_of_mem segment hother) with
        ⟨hrest, hrestFront⟩
      rw [List.flatMap_cons, List.foldl_append]
      refine ⟨hrest, ?_⟩
      rw [hrestFront, hfront, List.reverse_append, List.append_assoc]

end Search

/-! ## Splitting -/

section Splitting

variable {base : List Char} {segments init : List Segment} {last : Segment}

theorem charsOf_append (base : List Char) (init : List Segment) (last : Segment) :
    charsOf base (init ++ [last]) = charsOf base init ++ last.chars := by
  simp [charsOf]

/-- Behind a path the search is between two members. -/
theorem search_charsOf {first : Char} (hbase : IsName (first :: base))
    (hsegments : ∀ segment ∈ segments, segment.Valid) :
    ((base ++ segments.flatMap Segment.chars).foldl Search.step { front := [first] }).Idle ∧
      ((base ++ segments.flatMap Segment.chars).foldl Search.step { front := [first] }).front =
        (charsOf (first :: base) segments).reverse := by
  have hname :
      base.foldl Search.step { front := [first] } = Search.pass { front := [first] } base :=
    Search.foldl_step_plain rfl fun c hc => hbase.plain (List.mem_cons_of_mem first hc)
  have hidle : (base.foldl Search.step { front := [first] }).Idle := by
    rw [hname]
    exact ⟨rfl, rfl⟩
  rcases hidle.foldl_step_segments hsegments with ⟨hrest, hfront⟩
  rw [List.foldl_append]
  refine ⟨hrest, ?_⟩
  rw [hfront, hname]
  simp [Search.pass, charsOf]

/-- A path that ends with a bracketed member is split in front of the bracket. -/
theorem splitBracket_charsOf (hbase : IsName base) (hinit : ∀ segment ∈ init, segment.Valid)
    (hinner : Balanced inner) :
    splitBracket (charsOf base (init ++ [.bracket inner])) =
      .ok { object := String.ofList (charsOf base init), key := some (String.ofList inner) } := by
  cases base with
  | nil => exact absurd rfl hbase.ne_nil
  | cons first base =>
      rcases search_charsOf hbase hinit with ⟨hidle, hfront⟩
      have hcs : charsOf (first :: base) (init ++ [.bracket inner]) =
          first :: ((base ++ init.flatMap Segment.chars) ++ (Segment.bracket inner).chars) := by
        simp [charsOf]
      rw [hcs, splitBracket, List.foldl_append, hidle.foldl_step_bracket hinner, hfront]
      simp only [Search.key, hidle.depth, if_true, List.reverse_reverse]

/-- A path that ends with a named member is split at the point. -/
theorem splitPoint_append (hname : '.' ∉ name) (object : List Char) :
    splitPoint (object ++ '.' :: name) =
      { object := String.ofList object, key := some (String.ofList (Segment.point name).key) } := by
  have hpoint : '.' ∉ name.reverse := by simpa using hname
  have hcut : Text.breakOn? ['.'] (object ++ '.' :: name).reverse =
      some (name.reverse, object.reverse) := by
    rw [Text.breakOn?_eq_some_iff, Text.firstAt_singleton]
    exact ⟨by simp, hpoint⟩
  rw [splitPoint, hcut]
  simp [Segment.key]

/-- A path without a point is not split. -/
theorem splitPoint_of_not_mem (h : '.' ∉ cs) :
    splitPoint cs = { object := String.ofList cs, key := none } := by
  have hpoint : '.' ∉ cs.reverse := by simpa using h
  rw [splitPoint, Text.breakOn?_of_not_mem hpoint]

theorem getLast?_bracket (base : List Char) (init : List Segment) (inner : List Char) :
    (charsOf base (init ++ [.bracket inner])).getLast? = some ']' := by
  have hlast : charsOf base (init ++ [.bracket inner]) =
      (charsOf base init ++ '[' :: inner) ++ [']'] := by
    simp [charsOf, Segment.chars]
  rw [hlast, List.getLast?_concat]

/-- A path without a bracket at its end ends with a name. -/
theorem getLast?_point (hname : IsName name) (base : List Char) (init : List Segment) :
    (charsOf base (init ++ [.point name])).getLast? = name.getLast? := by
  rcases List.eq_nil_or_concat name with hnil | ⟨front, c, rfl⟩
  · exact absurd hnil hname.ne_nil
  · have hlast : charsOf base (init ++ [.point (front.concat c)]) =
        (charsOf base init ++ '.' :: front) ++ [c] := by
      simp [charsOf, Segment.chars]
    rw [hlast, List.getLast?_concat, List.concat_eq_append, List.getLast?_concat]

/-- A path is a bare name, or ends with a member. -/
theorem Written.cases (p : Written) :
    p.segments = [] ∨
      (∃ init name, p.segments = init ++ [.point name] ∧ IsName name) ∨
        ∃ init inner, p.segments = init ++ [.bracket inner] ∧ Balanced inner := by
  rcases List.eq_nil_or_concat p.segments with hnil | ⟨init, last, hconcat⟩
  · exact .inl hnil
  · rw [List.concat_eq_append] at hconcat
    have hvalid : last.Valid := p.valid last (by simp [hconcat])
    cases last with
    | point name => exact .inr (.inl ⟨init, name, hconcat, hvalid⟩)
    | bracket inner => exact .inr (.inr ⟨init, inner, hconcat, hvalid⟩)

theorem IsName.isBlank_last (h : IsName name) (hc : c ∈ name.getLast?) : Text.isBlank c = false :=
  h.not_blank c (List.mem_of_getLast? hc)

theorem IsName.getLast?_ne (h : IsName name) : name.getLast? ≠ some ']' := fun hlast =>
  h.not_mem ']' (by simp [marks]) (List.mem_of_getLast? hlast)

theorem Written.trimmed_chars (p : Written) : Text.Trimmed p.chars where
  head := by
    rcases List.exists_cons_of_ne_nil p.isName.ne_nil with ⟨first, base, hbase⟩
    intro c hc
    rw [chars, charsOf, hbase, List.cons_append, List.head?_cons] at hc
    cases hc
    exact p.isName.not_blank first (by simp [hbase])
  last := by
    intro c hc
    rcases p.cases with hnil | ⟨init, name, hsegments, hname⟩ | ⟨init, inner, hsegments, _⟩
    · rw [chars, hnil, charsOf, List.flatMap_nil, List.append_nil] at hc
      exact p.isName.isBlank_last hc
    · rw [chars, hsegments, getLast?_point hname] at hc
      exact hname.isBlank_last hc
    · rw [chars, hsegments, getLast?_bracket] at hc
      cases hc
      decide

/-- A path is split at its last member. -/
theorem Written.parse_eq (p : Written) {path : String} (hpath : Text.trim path.toList = p.chars) :
    (p.segments = [] → parse path = .ok { object := String.ofList p.base, key := none }) ∧
    ∀ init last, p.segments = init ++ [last] →
      parse path =
        .ok { object := String.ofList (charsOf p.base init)
              key := some (String.ofList last.key) } := by
  constructor
  · intro hnil
    have hchars : p.chars = p.base := by simp [chars, charsOf, hnil]
    rw [hchars] at hpath
    simp only [parse, hpath, p.isName.getLast?_ne, and_false, if_false,
      splitPoint_of_not_mem p.isName.point_not_mem]
  · intro init last hsegments
    have hvalid : last.Valid := p.valid last (by simp [hsegments])
    rw [chars, hsegments] at hpath
    cases last with
    | point name =>
        have hlast := getLast?_point hvalid p.base init
        simp only [parse, hpath, hlast, hvalid.getLast?_ne, and_false, if_false]
        rw [charsOf_append, Segment.chars, splitPoint_append hvalid.point_not_mem]
    | bracket inner =>
        have hmem : '[' ∈ charsOf p.base (init ++ [.bracket inner]) := by
          simp [charsOf, Segment.chars]
        have hinit : ∀ segment ∈ init, segment.Valid := fun segment hsegment =>
          p.valid segment (by simp [hsegments, hsegment])
        simp only [parse, hpath, List.contains_iff_mem, hmem, getLast?_bracket, and_self, if_true,
          splitBracket_charsOf p.isName hinit hvalid, Segment.key]

/-- Whatever blanks are around it, a path is split at its last member, and the member is set
through what stands in front of it. A bare name is not split, and assigned to. -/
theorem assign_written (p : Written) (path code : String) {front back : List Char}
    (hpath : path.toList = front ++ p.chars ++ back)
    (hfront : ∀ c ∈ front, Text.isBlank c = true) (hback : ∀ c ∈ back, Text.isBlank c = true) :
    (p.segments = [] →
      parse path = .ok { object := String.ofList p.base, key := none } ∧
        assign path code = .ok (path ++ "=" ++ code)) ∧
    (∀ init last, p.segments = init ++ [last] →
      parse path =
          .ok { object := String.ofList (charsOf p.base init)
                key := some (String.ofList last.key) } ∧
        assign path code =
          .ok ("$set(" ++ String.ofList (charsOf p.base init) ++ ", " ++ String.ofList last.key ++
            ", " ++ code ++ ")")) := by
  have htrim : Text.trim path.toList = p.chars := by
    rw [hpath]
    exact p.trimmed_chars.trim_eq hfront hback
  constructor
  · intro hnil
    have hparse := (p.parse_eq htrim).1 hnil
    exact ⟨hparse, by rw [assign, hparse]⟩
  · intro init last hsegments
    have hparse := (p.parse_eq htrim).2 init last hsegments
    exact ⟨hparse, by rw [assign, hparse]⟩

/-- The first member holds a path, the last one a string with a bracket in it. -/
def sample : Written where
  base := "rows".toList
  segments := [.bracket "k[i]".toList, .point "cells".toList, .bracket "'é]'".toList]
  isName := ⟨by decide, by simp [marks], by simp [Text.isBlank]⟩
  valid := by
    have hinner : Balanced "k[i]".toList :=
      .plain (by decide) (.bracketed (.plain (by decide) .nil) .nil)
    have hcells : IsName "cells".toList :=
      ⟨by decide, by simp [marks], by simp [Text.isBlank]⟩
    have hstring : Balanced ('\'' :: (['é', ']'] ++ ['\''])) :=
      .quoted (.inr rfl) (by decide) .nil
    intro segment hsegment
    simp only [List.mem_cons, List.not_mem_nil, or_false] at hsegment
    rcases hsegment with rfl | rfl | rfl
    · exact hinner
    · exact hcells
    · exact hstring

theorem assign_written_sample :
    assign " rows[k[i]].cells['é]'] " "x" = .ok "$set(rows[k[i]].cells, 'é]', x)" := by
  have hpath : " rows[k[i]].cells['é]'] ".toList = [' '] ++ sample.chars ++ [' '] := by decide
  have hassign := assign_written sample _ "x" hpath (by simp [Text.isBlank]) (by simp [Text.isBlank])
  exact (hassign.2 [.bracket "k[i]".toList, .point "cells".toList] _ rfl).2

end Splitting

end MemberPath
end TemplateMarkup
