import TemplateMarkup.Expression.FilterChain
import TemplateMarkup.Proofs.Text.Cutting

/-!
# Where a filter chain is cut

A chain is cut at each bar that stands alone, outside of literals and brackets. This file says it of
a bar between two texts:

* `FilterChain.Reader.Outside` — a reader is in no literal and in no brackets,
* `FilterChain.Cuts before behind` — a bar between the two texts cuts there,
* `FilterChain.parts_bar` — the parts are those of the two texts then,
* `FilterChain.parts_eq_singleton_iff` — without such a bar the text is the only part,
* `FilterChain.compile_bar` — the filter behind a bar is applied to what stands in front of it.

The reading in front of a bar leaves nothing behind but the parts it has found: a reader that has
just passed a bar reads on like a new one (`FilterChain.Reader.Resumes`).
-/

namespace TemplateMarkup
namespace FilterChain

variable {before behind cs ds : List Char} {c : Char} {next next' : Option Char}

namespace Reader

variable {r s : Reader} {front : List (List Char)}

/-! ## Steps -/

/-- In no literal and in no brackets. -/
structure Outside (r : Reader) : Prop where
  mode : r.mode = .code
  curly : r.curly = 0
  square : r.square = 0
  paren : r.paren = 0

theorem step_separate (hmode : r.mode = .code) (h : r.separates c next = true) :
    r.step c next = r.separate c := by
  simp [step, hmode, Mode.delimiter?, h]

theorem step_code (hmode : r.mode = .code) (h : r.separates c next = false) :
    r.step c next = (r.readCode c).keep c := by
  simp [step, hmode, Mode.delimiter?, h]

theorem separates_iff :
    r.separates c next = true ↔
      c = '|' ∧ next ≠ some '|' ∧ r.previous ≠ some '|' ∧ r.curly = 0 ∧ r.square = 0 ∧
        r.paren = 0 := by
  simp [separates, and_assoc]

theorem separates_of_ne (hc : c ≠ '|') : r.separates c next = false := by
  simp [separates, hc]

/-- What follows a character matters for a bar only. -/
theorem step_next (hc : c ≠ '|') : r.step c next = r.step c next' := by
  unfold step
  split
  · rfl
  · rw [separates_of_ne hc, separates_of_ne hc]

theorem previous_step (r : Reader) (c : Char) (next : Option Char) :
    (r.step c next).previous = some c := by
  unfold step
  split
  · split
    · rfl
    · rfl
  · split
    · rfl
    · rfl

theorem previous_read (r : Reader) (cs : List Char) :
    (r.read cs).previous = cs.getLast?.or r.previous := by
  induction cs generalizing r with
  | nil => rfl
  | cons c cs ih =>
      rw [read, ih, previous_step, List.getLast?_cons]
      cases cs.getLast? with
      | none => rfl
      | some last => rfl

/-- A text that does not end in a bar is read without looking at what follows it. -/
theorem read_append (h : cs.getLast? ≠ some '|') : r.read (cs ++ ds) = (r.read cs).read ds := by
  induction cs generalizing r with
  | nil => rfl
  | cons c cs ih =>
      cases cs with
      | nil =>
          have hc : c ≠ '|' := by simpa using h
          rw [List.singleton_append, read, step_next hc]
          rfl
      | cons d cs =>
          have hrest : (d :: cs).getLast? ≠ some '|' := by simpa using h
          exact ih hrest

/-! ## Reading on -/

/-- `s` stands where `r` stands, but has found the parts of `front` before. What came before either
is alike as far as it matters for a character other than a bar. -/
structure Resumes (front : List (List Char)) (r s : Reader) : Prop where
  mode_eq : s.mode = r.mode
  curly_eq : s.curly = r.curly
  square_eq : s.square = r.square
  paren_eq : s.paren = r.paren
  escape_iff : s.previous = some '\\' ↔ r.previous = some '\\'
  operand_eq : s.solid.any leavesOperand = r.solid.any leavesOperand
  ended_eq : s.ended = r.ended ++ front
  current_eq : s.current = r.current

theorem Resumes.keep (h : Resumes front r s) (c : Char) :
    Resumes front (r.keep c) (s.keep c) := by
  refine ⟨h.mode_eq, h.curly_eq, h.square_eq, h.paren_eq, Iff.rfl, ?_, h.ended_eq,
    congrArg (c :: ·) h.current_eq⟩
  unfold Reader.keep
  split
  · exact h.operand_eq
  · rfl

theorem Resumes.separate (h : Resumes front r s) (c : Char) :
    Resumes front (r.separate c) (s.separate c) := by
  refine ⟨h.mode_eq, h.curly_eq, h.square_eq, h.paren_eq, Iff.rfl, rfl, ?_, rfl⟩
  simp [Reader.separate, h.ended_eq, h.current_eq]

theorem Resumes.withMode (h : Resumes front r s) (mode : Mode) :
    Resumes front { r with mode } { s with mode } :=
  { h with mode_eq := rfl }

theorem Resumes.readCode (h : Resumes front r s) (c : Char) :
    Resumes front (r.readCode c) (s.readCode c) := by
  unfold Reader.readCode
  split
  · exact h.withMode .double
  · exact h.withMode .single
  · exact h.withMode .template
  · exact { h with paren_eq := congrArg (· + 1) h.paren_eq }
  · exact { h with paren_eq := congrArg (· - 1) h.paren_eq }
  · exact { h with square_eq := congrArg (· + 1) h.square_eq }
  · exact { h with square_eq := congrArg (· - 1) h.square_eq }
  · exact { h with curly_eq := congrArg (· + 1) h.curly_eq }
  · exact { h with curly_eq := congrArg (· - 1) h.curly_eq }
  · rw [h.operand_eq]
    split
    · exact h
    · exact h.withMode .regex
  · exact h

/-- One step; at a bar, what came before has to be the same. -/
theorem Resumes.step (h : Resumes front r s) (hbar : c = '|' → s.previous = r.previous) :
    Resumes front (r.step c next) (s.step c next) := by
  have hseparates : s.separates c next = r.separates c next := by
    by_cases hc : c = '|'
    · simp [separates, hbar hc, h.curly_eq, h.square_eq, h.paren_eq]
    · rw [separates_of_ne hc, separates_of_ne hc]
  unfold Reader.step
  rw [h.mode_eq, hseparates]
  split
  · simp only [ne_eq, h.escape_iff]
    split
    · exact (h.withMode .code).keep c
    · exact h.keep c
  · split
    · exact h.separate c
    · exact (h.readCode c).keep c

theorem Resumes.read (h : Resumes front r s)
    (hbar : cs.head? = some '|' → s.previous = r.previous) :
    Resumes front (r.read cs) (s.read cs) := by
  induction cs generalizing r s with
  | nil => exact h
  | cons c cs ih =>
      refine ih (h.step fun hc => hbar (congrArg some hc)) fun _ => ?_
      rw [previous_step, previous_step]

/-- A bar is passed as if nothing had been read before. -/
theorem Outside.resumes (h : r.Outside) :
    Resumes (r.current.reverse :: r.ended) {} (r.separate '|') where
  mode_eq := h.mode
  curly_eq := h.curly
  square_eq := h.square
  paren_eq := h.paren
  escape_iff := by simp [separate]
  operand_eq := rfl
  ended_eq := rfl
  current_eq := rfl

end Reader

/-! ## Bars -/

/-- The bar between `before` and `behind` stands alone, in no literal and in no brackets. -/
structure Cuts (before behind : List Char) : Prop where
  not_behind_bar : before.getLast? ≠ some '|'
  not_before_bar : behind.head? ≠ some '|'
  outside : (({} : Reader).read before).Outside

theorem Cuts.separates (h : Cuts before behind) :
    (({} : Reader).read before).separates '|' behind.head? = true := by
  have hprevious : (({} : Reader).read before).previous = before.getLast? := by
    rw [Reader.previous_read, Option.or_none]
  refine Reader.separates_iff.2 ⟨rfl, h.not_before_bar, ?_, h.outside.curly, h.outside.square,
    h.outside.paren⟩
  rw [hprevious]
  exact h.not_behind_bar

/-- A text with a bar that cuts has the parts in front of it and those behind it. -/
theorem parts_bar (h : Cuts before behind) :
    parts (before ++ '|' :: behind) = parts before ++ parts behind := by
  have hread : ({} : Reader).read (before ++ '|' :: behind) =
      ((({} : Reader).read before).separate '|').read behind :=
    calc
      ({} : Reader).read (before ++ '|' :: behind)
          = (({} : Reader).read before).read ('|' :: behind) :=
        Reader.read_append h.not_behind_bar
      _ = ((({} : Reader).read before).step '|' behind.head?).read behind := rfl
      _ = _ := by rw [Reader.step_separate h.outside.mode h.separates]
  have hresumes := h.outside.resumes.read fun hhead => absurd hhead h.not_before_bar
  unfold parts
  rw [hread, Reader.parts, hresumes.ended_eq, hresumes.current_eq]
  simp [Reader.parts]

/-! ## All parts -/

theorem intercalate_extend (mark : List Char) (parts : List (List Char)) (part more : List Char) :
    mark.intercalate (parts ++ [part ++ more]) = mark.intercalate (parts ++ [part]) ++ more := by
  induction parts with
  | nil => simp
  | cons first parts ih =>
      simp only [List.cons_append]
      rw [List.intercalate_cons_of_ne_nil (by simp), List.intercalate_cons_of_ne_nil (by simp), ih]
      simp only [List.append_assoc]

theorem intercalate_open (mark : List Char) (parts : List (List Char)) (part : List Char) :
    mark.intercalate (parts ++ [part, []]) = mark.intercalate (parts ++ [part]) ++ mark := by
  induction parts with
  | nil => simp [List.intercalate_cons_cons]
  | cons first parts ih =>
      simp only [List.cons_append]
      rw [List.intercalate_cons_of_ne_nil (by simp), List.intercalate_cons_of_ne_nil (by simp), ih]
      simp only [List.append_assoc]

namespace Reader

variable {r : Reader}

/-- What has been read: the parts with a bar between them. -/
def text (r : Reader) : List Char :=
  ['|'].intercalate r.parts

theorem text_keep (r : Reader) (c : Char) : (r.keep c).text = r.text ++ [c] := by
  simp only [text, parts, keep, List.reverse_cons, intercalate_extend]

/-- Plain code changes the literal and the brackets, and leaves the parts alone. -/
theorem readCode_eq (r : Reader) (c : Char) :
    r.readCode c =
      { r with
        mode := (r.readCode c).mode
        curly := (r.readCode c).curly
        square := (r.readCode c).square
        paren := (r.readCode c).paren } := by
  unfold readCode
  split
  case h_10 =>
    split
    · rfl
    · rfl
  all_goals rfl

theorem text_readCode (r : Reader) (c : Char) : (r.readCode c).text = r.text := by
  rw [readCode_eq]
  rfl

theorem text_separate (r : Reader) : (r.separate '|').text = r.text ++ ['|'] := by
  simp only [text, parts, separate, List.reverse_cons, List.reverse_nil, List.append_assoc,
    List.singleton_append, intercalate_open]

theorem text_step (r : Reader) (c : Char) (next : Option Char) :
    (r.step c next).text = r.text ++ [c] := by
  unfold step
  split
  · split
    · exact text_keep _ c
    · exact text_keep r c
  · split
    · next hseparates =>
        obtain ⟨rfl, _⟩ := separates_iff.1 hseparates
        exact text_separate r
    · rw [text_keep, text_readCode]

theorem text_read (r : Reader) (cs : List Char) : (r.read cs).text = r.text ++ cs := by
  induction cs generalizing r with
  | nil => simp [read]
  | cons c cs ih => rw [read, ih, text_step, List.append_assoc, List.singleton_append]

theorem ended_step (h : ¬(r.mode = .code ∧ r.separates c next = true)) :
    (r.step c next).ended = r.ended := by
  have hread : (r.readCode c).ended = r.ended := by rw [readCode_eq]
  unfold step
  split
  · split
    · rfl
    · rfl
  · next hmode =>
      have hcode : r.mode = .code := by
        cases hr : r.mode with
        | code => rfl
        | _ => simp [hr, Mode.delimiter?] at hmode
      split
      · next hseparates => exact absurd ⟨hcode, hseparates⟩ h
      · exact hread

/-- A reader that meets no bar that cuts ends no part. -/
theorem ended_read
    (h : ∀ before behind, cs = before ++ '|' :: behind → behind.head? ≠ some '|' →
      before.getLast?.or r.previous ≠ some '|' → ¬(r.read before).Outside) :
    (r.read cs).ended = r.ended := by
  induction cs generalizing r with
  | nil => rfl
  | cons c cs ih =>
      have hstep : (r.step c cs.head?).ended = r.ended := by
        refine ended_step ?_
        rintro ⟨hmode, hseparates⟩
        obtain ⟨rfl, hnext, hprevious, hcurly, hsquare, hparen⟩ := separates_iff.1 hseparates
        exact h [] cs rfl hnext hprevious ⟨hmode, hcurly, hsquare, hparen⟩
      rw [read, ih, hstep]
      intro before behind hcs hnext hprevious houtside
      rw [previous_step] at hprevious
      refine h (c :: before) behind (by rw [hcs, List.cons_append]) hnext ?_ ?_
      · rw [List.getLast?_cons]
        cases hlast : before.getLast? with
        | none => simpa [hlast] using hprevious
        | some last => simpa [hlast] using hprevious
      · -- The step looks at the same character, or at one that does not matter to it.
        have hsame : r.step c before.head? = r.step c cs.head? := by
          cases before with
          | nil => exact step_next (by simpa using hprevious)
          | cons d before =>
              rw [hcs]
              rfl
        rw [read, hsame]
        exact houtside

end Reader

/-- The parts with bars between them are the text. -/
theorem intercalate_parts (cs : List Char) : ['|'].intercalate (parts cs) = cs :=
  Reader.text_read {} cs

theorem parts_ne_nil (cs : List Char) : parts cs ≠ [] := by
  simp [parts, Reader.parts]

/-- A text is its only part if no part of it has ended. -/
theorem parts_of_ended (h : (({} : Reader).read cs).ended = []) : parts cs = [cs] := by
  have hparts : parts cs = [(({} : Reader).read cs).current.reverse] := by
    simp [parts, Reader.parts, h]
  have htext := intercalate_parts cs
  rw [hparts, List.intercalate_singleton] at htext
  rw [hparts, htext]

/-- A text is its only part if no bar in it cuts. -/
theorem parts_eq_singleton_iff :
    parts cs = [cs] ↔ ∀ before behind, cs = before ++ '|' :: behind → ¬Cuts before behind := by
  constructor
  · intro h before behind hcs hcuts
    have hparts := parts_bar hcuts
    rw [← hcs, h] at hparts
    have hlength := congrArg List.length hparts
    have hfront := List.length_pos_iff.2 (parts_ne_nil before)
    have hback := List.length_pos_iff.2 (parts_ne_nil behind)
    simp only [List.length_cons, List.length_nil, List.length_append] at hlength
    omega
  · intro h
    refine parts_of_ended (Reader.ended_read fun before behind hcs hnext hprevious houtside => ?_)
    rw [Option.or_none] at hprevious
    exact h before behind hcs ⟨hprevious, hnext, houtside⟩

/-! ## Filters -/

/-- A filter without arguments. -/
theorem apply_of_not_mem {value filter : List Char} (h : '(' ∉ filter) :
    apply value filter = "_f(\"".toList ++ filter ++ "\")(".toList ++ value ++ ")".toList := by
  unfold apply
  rw [Text.breakOn?_of_not_mem h]

/-- A filter with arguments. -/
theorem apply_append {value name : List Char} (h : '(' ∉ name) (args : List Char) :
    apply value (name ++ '(' :: args) =
      "_f(\"".toList ++ name ++ "\")(".toList ++ value ++
        (if args = [')'] then [')'] else ',' :: args) := by
  have hsome : Text.breakOn? ['('] (name ++ '(' :: args) = some (name, args) :=
    Text.breakOn?_eq_some_iff.2 ⟨by simp, Text.firstAt_singleton.2 h⟩
  unfold apply
  rw [hsome]
  dsimp only
  split
  · next hargs => simp [hargs]
  · simp

/-- The filter behind a bar is applied last. -/
theorem compileChars_bar (h : Cuts before behind) (hbehind : parts behind = [behind]) :
    compileChars (before ++ '|' :: behind) = apply (compileChars before) (Text.trim behind) := by
  rcases List.exists_cons_of_ne_nil (parts_ne_nil before) with ⟨value, filters, hparts⟩
  simp [compileChars, parts_bar h, hbehind, hparts]

/-- What follows a bar is a filter: it is applied to what stands in front, as a call of its name
with the value and with its arguments, if it has any. -/
theorem compile_bar (value filter : String) (hvalue : value.toList.getLast? ≠ some '|')
    (hfilter : filter.toList.head? ≠ some '|')
    (houtside : (({} : Reader).read value.toList).Outside)
    (hsingle : ∀ before behind, filter.toList = before ++ '|' :: behind → ¬Cuts before behind) :
    ('(' ∉ Text.trim filter.toList →
      compile (value ++ "|" ++ filter) =
        "_f(\"" ++ String.ofList (Text.trim filter.toList) ++ "\")(" ++ compile value ++ ")") ∧
    (∀ name args, Text.trim filter.toList = name ++ '(' :: args → '(' ∉ name →
      compile (value ++ "|" ++ filter) =
        "_f(\"" ++ String.ofList name ++ "\")(" ++ compile value ++
          (if args = [')'] then ")" else "," ++ String.ofList args)) := by
  have hchars : compile (value ++ "|" ++ filter) =
      String.ofList (apply (compileChars value.toList) (Text.trim filter.toList)) := by
    rw [← compileChars_bar ⟨hvalue, hfilter, houtside⟩ (parts_eq_singleton_iff.2 hsingle)]
    simp [compile]
  constructor
  · intro hname
    rw [hchars, apply_of_not_mem hname, ← String.toList_inj]
    simp only [compile, String.toList_append, String.toList_ofList]
  · intro name args htrim hname
    rw [hchars, htrim, apply_append hname, ← String.toList_inj]
    simp only [compile, String.toList_append, String.toList_ofList]
    split
    · rfl
    · simp only [String.toList_append, String.toList_ofList]
      rfl

/-- The value is a condition with a bar in a literal, two bars that are an operator, and a filter;
the filter behind it has a bar in its arguments. -/
theorem compile_bar_padded :
    compile "a || '|' | trim | pad(3, '|')" = "_f(\"pad\")(_f(\"trim\")(a || '|'),3, '|')" := by
  have hvalue : compile "a || '|' | trim " = "_f(\"trim\")(a || '|')" := by decide +kernel
  have hfilter : Text.trim " pad(3, '|')".toList = "pad".toList ++ '(' :: "3, '|')".toList := by
    decide +kernel
  have hbar := (compile_bar "a || '|' | trim " " pad(3, '|')" (by decide) (by decide)
    ⟨by decide, by decide, by decide, by decide⟩
    (parts_eq_singleton_iff.1 (by decide +kernel))).2 _ _ hfilter (by decide)
  rw [hvalue] at hbar
  exact hbar

end FilterChain
end TemplateMarkup
