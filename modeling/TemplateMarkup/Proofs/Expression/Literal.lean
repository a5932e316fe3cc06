import TemplateMarkup.Proofs.Expression.FilterChain

/-!
# String literals in a filter chain

A string literal is written between two quotes of one kind; inside it a backslash takes the next
character with it. This file defines:

* `FilterChain.Literal` — a literal: its quote, and its characters, each plain or escaped,
* `FilterChain.Literal.EndsInBackslash` — the last character is an escaped backslash.

A reader only looks at the character in front of a quote, so it takes the closing quote behind an
escaped backslash for an escaped quote. `FilterChain.compile_literal` says what becomes of a literal
and of a filter behind it in both cases.
-/

namespace TemplateMarkup
namespace FilterChain

/-! ## Literals -/

/-- A character inside a literal, as written: for itself, or behind a backslash. -/
inductive Literal.Item where
  | plain (c : Char)
  | escaped (c : Char)
  deriving DecidableEq, Repr

/-- A string literal. A plain character is neither the quote nor a backslash. -/
structure Literal where
  mark : Char
  items : List Literal.Item
  mark_mem : mark = '\'' ∨ mark = '"'
  plain_ne : ∀ c, .plain c ∈ items → c ≠ mark ∧ c ≠ '\\'

namespace Literal

def Item.chars : Item → List Char
  | plain c => [c]
  | escaped c => ['\\', c]

/-- What is written for some characters. -/
def inside (items : List Item) : List Char :=
  items.flatMap Item.chars

def chars (s : Literal) : List Char :=
  s.mark :: (inside s.items ++ [s.mark])

def text (s : Literal) : String :=
  String.ofList s.chars

/-- The last character is an escaped backslash. -/
def EndsInBackslash (s : Literal) : Prop :=
  s.items.getLast? = some (.escaped '\\')

instance (s : Literal) : Decidable s.EndsInBackslash :=
  inferInstanceAs (Decidable (_ = _))

variable {s : Literal}

/-- What holds of both quotes. -/
theorem of_quotes {P : Char → Prop} (hsingle : P '\'') (hdouble : P '"') (s : Literal) :
    P s.mark := by
  rcases s.mark_mem with h | h
  · exact h ▸ hsingle
  · exact h ▸ hdouble

theorem mark_ne (s : Literal) : s.mark ≠ '\\' :=
  of_quotes (P := (· ≠ '\\')) (by decide) (by decide) s

theorem isBlank_mark (s : Literal) : Text.isBlank s.mark = false :=
  of_quotes (P := (Text.isBlank · = false)) (by decide) (by decide) s

theorem trimmed_chars (s : Literal) : Text.Trimmed s.chars where
  head := by simpa [chars] using s.isBlank_mark
  last := by simpa [chars, List.getLast?_cons] using s.isBlank_mark

/-- In front of the closing quote stands a backslash only if that is escaped itself. -/
theorem last_ne (h : ¬s.EndsInBackslash) :
    (inside s.items).getLast?.or (some s.mark) ≠ some '\\' := by
  rcases List.eq_nil_or_concat s.items with hnil | ⟨items, item, hitems⟩
  · simpa [hnil, inside] using s.mark_ne
  · rw [List.concat_eq_append] at hitems
    cases item with
    | plain c =>
        have hc := (s.plain_ne c (by simp [hitems])).2
        simpa [hitems, inside, Item.chars] using hc
    | escaped c =>
        have hc : c ≠ '\\' := by
          rintro rfl
          exact h (by simp [EndsInBackslash, hitems])
        simpa [hitems, inside, Item.chars] using hc

end Literal

/-! ## Reading a literal -/

namespace Reader

open Literal

variable {r : Reader} {mark : Char} {next : Option Char} {items : List Item} {ds : List Char}

/-- In a literal that `mark` ends, in no brackets, and behind no bar that cuts. -/
structure Within (mark : Char) (r : Reader) : Prop where
  delimiter : r.mode.delimiter? = some mark
  curly : r.curly = 0
  square : r.square = 0
  paren : r.paren = 0
  ended : r.ended = []

theorem Within.keep (h : r.Within mark) (c : Char) : (r.keep c).Within mark :=
  ⟨h.delimiter, h.curly, h.square, h.paren, h.ended⟩

/-- A character that does not end the literal stays in it. -/
theorem Within.step_keep (h : r.Within mark) {c : Char}
    (hc : c = mark → r.previous = some '\\') : r.step c next = r.keep c := by
  have hopen : ¬(c = mark ∧ r.previous ≠ some '\\') := fun hends => hends.2 (hc hends.1)
  simp only [step, h.delimiter, if_neg hopen]

/-- The quote ends the literal, unless a backslash stands in front of it. -/
theorem Within.step_mark (h : r.Within mark) (hprevious : r.previous ≠ some '\\') :
    (r.step mark next).Outside ∧ (r.step mark next).ended = [] := by
  have hstep : r.step mark next = { r with mode := .code }.keep mark := by
    simp [step, h.delimiter, hprevious]
  rw [hstep]
  exact ⟨⟨rfl, h.curly, h.square, h.paren⟩, h.ended⟩

/-- Plain characters other than the quote, and escaped ones whatever they are, stay in it. -/
theorem Within.read_inside (h : r.Within mark) (hmark : mark ≠ '\\')
    (hitems : ∀ c, .plain c ∈ items → c ≠ mark) (ds : List Char) :
    (r.read (inside items)).Within mark ∧
      r.read (inside items ++ ds) = (r.read (inside items)).read ds := by
  induction items generalizing r with
  | nil => exact ⟨h, rfl⟩
  | cons item items ih =>
      have hrest : ∀ c, .plain c ∈ items → c ≠ mark :=
        fun c hc => hitems c (List.mem_cons_of_mem item hc)
      cases item with
      | plain c =>
          have hc := hitems c List.mem_cons_self
          have hread : ∀ cs, r.read (c :: cs) = (r.keep c).read cs := by
            intro cs
            rw [read, h.step_keep fun heq => absurd heq hc]
          have hchars : inside (.plain c :: items) = c :: inside items := rfl
          rw [hchars, List.cons_append, hread, hread]
          exact ih (h.keep c) hrest
      | escaped c =>
          have hread : ∀ cs, r.read ('\\' :: c :: cs) = ((r.keep '\\').keep c).read cs := by
            intro cs
            rw [read, h.step_keep fun heq => absurd heq.symm hmark, read,
              (h.keep '\\').step_keep fun _ => rfl]
          have hchars : inside (.escaped c :: items) = '\\' :: c :: inside items := rfl
          rw [hchars, List.cons_append, List.cons_append, hread, hread]
          exact ih ((h.keep '\\').keep c) hrest

theorem Outside.read_space (h : r.Outside) :
    (r.read [' ']).Outside ∧ (r.read [' ']).ended = r.ended := by
  have hread : r.read [' '] = r.keep ' ' := step_code h.mode (separates_of_ne (by decide))
  rw [hread]
  exact ⟨⟨h.mode, h.curly, h.square, h.paren⟩, rfl⟩

end Reader

namespace Literal

variable {s : Literal} {cs : List Char}

/-- The opening quote leads into the literal. -/
theorem read_mark (s : Literal) (cs : List Char) :
    ∃ r : Reader, r.Within s.mark ∧ r.previous = some s.mark ∧
      ({} : Reader).read (s.mark :: cs) = r.read cs := by
  rcases s.mark_mem with h | h
  · rw [h]
    exact ⟨({ mode := .single } : Reader).keep '\'', ⟨rfl, rfl, rfl, rfl, rfl⟩, rfl, rfl⟩
  · rw [h]
    exact ⟨({ mode := .double } : Reader).keep '"', ⟨rfl, rfl, rfl, rfl, rfl⟩, rfl, rfl⟩

/-- Behind a literal a reader is in plain code again, unless a backslash ends it. -/
theorem read_chars (h : ¬s.EndsInBackslash) (cs : List Char) :
    ∃ r : Reader, r.Outside ∧ r.ended = [] ∧ ({} : Reader).read (s.chars ++ cs) = r.read cs := by
  rcases s.read_mark (inside s.items ++ (s.mark :: cs)) with ⟨r, hwithin, hmark, hopen⟩
  rcases hwithin.read_inside s.mark_ne (fun c hc => (s.plain_ne c hc).1) (s.mark :: cs) with
    ⟨hinside, hread⟩
  have hprevious : (r.read (inside s.items)).previous ≠ some '\\' := by
    rw [Reader.previous_read, hmark]
    exact s.last_ne h
  have hclosed : ((r.read (inside s.items)).step s.mark cs.head?).Outside ∧
      ((r.read (inside s.items)).step s.mark cs.head?).ended = [] := hinside.step_mark hprevious
  refine ⟨_, hclosed.1, hclosed.2, ?_⟩
  calc
    ({} : Reader).read (s.chars ++ cs)
        = ({} : Reader).read (s.mark :: (inside s.items ++ (s.mark :: cs))) := by simp [chars]
    _ = r.read (inside s.items ++ (s.mark :: cs)) := hopen
    _ = (r.read (inside s.items)).read (s.mark :: cs) := hread

/-- Behind an escaped backslash the closing quote is taken for an escaped one: what follows the
literal is read as a part of it. -/
theorem ended_read (h : s.EndsInBackslash) (hcs : s.mark ∉ cs) :
    (({} : Reader).read (s.chars ++ cs)).ended = [] := by
  rcases List.getLast?_eq_some_iff.1 h with ⟨items, hitems⟩
  -- The same characters, otherwise grouped.
  let regrouped := items ++ [.plain '\\', .escaped s.mark] ++ cs.map .plain
  have hchars : s.chars ++ cs = s.mark :: inside regrouped := by
    simp [chars, inside, regrouped, hitems, Item.chars, List.flatMap_map, List.flatMap_singleton']
  have hplain : ∀ c, .plain c ∈ regrouped → c ≠ s.mark := by
    intro c hc
    simp only [regrouped, List.mem_append, List.mem_cons, List.not_mem_nil, or_false,
      List.mem_map, Item.plain.injEq, exists_eq_right] at hc
    rcases hc with (hc | hc | hc) | hc
    · exact (s.plain_ne c (by simp [hitems, hc])).1
    · rw [hc]
      exact s.mark_ne.symm
    · cases hc
    · exact fun heq => hcs (heq ▸ hc)
  rcases s.read_mark (inside regrouped) with ⟨r, hwithin, _, hread⟩
  rw [hchars, hread]
  exact (hwithin.read_inside s.mark_ne hplain []).1.ended

/-- A literal is one part. -/
theorem parts_chars (s : Literal) : parts s.chars = [s.chars] := by
  refine parts_of_ended ?_
  by_cases h : s.EndsInBackslash
  · have hended := s.ended_read h (List.not_mem_nil (a := s.mark))
    rwa [List.append_nil] at hended
  · rcases s.read_chars h [] with ⟨r, _, hended, hread⟩
    rw [List.append_nil] at hread
    rw [hread]
    exact hended

end Literal

/-! ## A filter behind a literal -/

theorem compileChars_of_parts {cs : List Char} (h : parts cs = [cs]) :
    compileChars cs = Text.trim cs := by
  simp [compileChars, h]

theorem not_mem_of_isAlpha {name : List Char} (hname : ∀ c ∈ name, c.isAlpha = true) {mark : Char}
    (hmark : mark.isAlpha = false) : mark ∉ name := by
  intro hmem
  rw [hname mark hmem] at hmark
  cases hmark

theorem isBlank_of_isAlpha {c : Char} (h : c.isAlpha = true) : Text.isBlank c = false := by
  have hletter := Text.letter_of_isAlpha h
  rw [← Bool.not_eq_true]
  simp only [Text.isBlank, Bool.or_eq_true, Bool.and_eq_true, decide_eq_true_eq, beq_iff_eq]
  omega

theorem trimmed_of_isAlpha {name : List Char} (hname : ∀ c ∈ name, c.isAlpha = true) :
    Text.Trimmed name where
  head c hc := isBlank_of_isAlpha (hname c (List.mem_of_mem_head? hc))
  last c hc := isBlank_of_isAlpha (hname c (List.mem_of_mem_getLast? hc))

namespace Literal

variable {s : Literal} {name : List Char}

theorem compileChars_chars (s : Literal) : compileChars s.chars = s.chars := by
  rw [compileChars_of_parts s.parts_chars, s.trimmed_chars.trim_self]

/-- The filter behind a literal is applied to it. -/
theorem compileChars_filter (h : ¬s.EndsInBackslash) (hname : ∀ c ∈ name, c.isAlpha = true) :
    compileChars ((s.chars ++ [' ']) ++ '|' :: ' ' :: name) = apply s.chars name := by
  rcases s.read_chars h [' '] with ⟨r, houtside, hended, hread⟩
  have hspace := houtside.read_space
  rw [← hread] at hspace
  have hcuts : Cuts (s.chars ++ [' ']) (' ' :: name) := ⟨by simp, by simp, hspace.1⟩
  have hbar : '|' ∉ ' ' :: name := by
    simpa using not_mem_of_isAlpha hname (by decide)
  have hfilter : parts (' ' :: name) = [' ' :: name] := by
    refine parts_eq_singleton_iff.2 fun before behind hcs _ => hbar ?_
    simp [hcs]
  have hvalue : Text.trim ([] ++ s.chars ++ [' ']) = s.chars :=
    s.trimmed_chars.trim_eq (by simp) (by simp [Text.isBlank])
  have htrim : Text.trim ([' '] ++ name ++ []) = name :=
    (trimmed_of_isAlpha hname).trim_eq (by simp [Text.isBlank]) (by simp)
  rw [List.nil_append] at hvalue
  rw [List.append_nil, List.singleton_append] at htrim
  calc
    compileChars ((s.chars ++ [' ']) ++ '|' :: ' ' :: name)
        = apply (compileChars (s.chars ++ [' '])) (Text.trim (' ' :: name)) :=
      compileChars_bar hcuts hfilter
    _ = apply (Text.trim (s.chars ++ [' '])) (Text.trim (' ' :: name)) := by
      rw [compileChars_of_parts (parts_of_ended (hspace.2.trans hended))]
    _ = apply s.chars name := by rw [hvalue, htrim]

/-- Behind an escaped backslash the filter is taken for a part of the literal. -/
theorem compileChars_swallowed (h : s.EndsInBackslash) (hname : ∀ c ∈ name, c.isAlpha = true)
    (hne : name ≠ []) :
    compileChars (s.chars ++ " | ".toList ++ name) = s.chars ++ " | ".toList ++ name := by
  have hspace : s.mark ∉ " | ".toList :=
    of_quotes (P := (· ∉ " | ".toList)) (by decide) (by decide) s
  have halpha : s.mark.isAlpha = false := of_quotes (P := (·.isAlpha = false)) rfl rfl s
  have hmark : s.mark ∉ " | ".toList ++ name := by
    rw [List.mem_append, not_or]
    exact ⟨hspace, not_mem_of_isAlpha hname halpha⟩
  have htrimmed : Text.Trimmed (s.chars ++ " | ".toList ++ name) := by
    refine ⟨?_, ?_⟩
    · simpa [chars] using s.isBlank_mark
    · intro c hc
      rw [List.getLast?_append, List.getLast?_eq_some_getLast hne, Option.some_or] at hc
      exact (trimmed_of_isAlpha hname).last c (by rw [List.getLast?_eq_some_getLast hne]; exact hc)
  rw [List.append_assoc] at htrimmed ⊢
  rw [compileChars_of_parts (parts_of_ended (s.ended_read h hmark)), htrimmed.trim_self]

end Literal

/-- What becomes of a string literal. Alone it stays as it is. A filter behind it is applied to it,
unless the last character of the literal is an escaped backslash: then the literal does not end for
the reader, and the filter stays as it is too. -/
theorem compile_literal (s : Literal) (name : String) (hname : ∀ c ∈ name.toList, c.isAlpha = true) :
    compile s.text = s.text ∧
    (¬s.EndsInBackslash →
      compile (s.text ++ " | " ++ name) = "_f(\"" ++ name ++ "\")(" ++ s.text ++ ")") ∧
    (s.EndsInBackslash → name ≠ "" →
      compile (s.text ++ " | " ++ name) = s.text ++ " | " ++ name) := by
  refine ⟨?_, fun h => ?_, fun h hne => ?_⟩
  · rw [compile, Literal.text, String.toList_ofList, s.compileChars_chars]
  · have hchars : (s.text ++ " | " ++ name).toList =
        (s.chars ++ [' ']) ++ '|' :: ' ' :: name.toList := by
      simp [Literal.text]
    rw [compile, hchars, Literal.compileChars_filter h hname,
      apply_of_not_mem (not_mem_of_isAlpha hname (by decide)), ← String.toList_inj]
    simp only [Literal.text, String.toList_append, String.toList_ofList]
  · have hchars : (s.text ++ " | " ++ name).toList = s.chars ++ " | ".toList ++ name.toList := by
      simp only [Literal.text, String.toList_append, String.toList_ofList]
    have hne' : name.toList ≠ [] := by simpa using hne
    rw [compile, hchars, Literal.compileChars_swallowed h hname hne', ← hchars,
      String.ofList_toList]

/-- The literal `'it\'s | \\n'`. -/
def apostrophe : Literal where
  mark := '\''
  items := [.plain 'i', .plain 't', .escaped '\'', .plain 's', .plain ' ', .plain '|', .plain ' ',
    .escaped 'n']
  mark_mem := .inl rfl
  plain_ne := by simp

/-- A quote behind a backslash does not end a literal, and a bar in it does not cut. -/
theorem compile_literal_apostrophe :
    compile (apostrophe.text ++ " | " ++ "upper") = "_f(\"upper\")('it\\'s | \\n')" := by
  have hends : ¬apostrophe.EndsInBackslash := by decide
  exact (compile_literal apostrophe "upper" (by simp)).2.1 hends

/-- The literal `'\\'`. -/
def backslash : Literal where
  mark := '\''
  items := [.escaped '\\']
  mark_mem := .inl rfl
  plain_ne := by simp

/-- The filter behind a backslash in quotes is not applied. -/
theorem compile_backslash :
    compile (backslash.text ++ " | " ++ "f") = "'\\\\' | f" ∧
      ¬∀ (s : Literal) (name : String), (∀ c ∈ name.toList, c.isAlpha = true) →
        compile (s.text ++ " | " ++ name) = "_f(\"" ++ name ++ "\")(" ++ s.text ++ ")" := by
  have hcompile : compile (backslash.text ++ " | " ++ "f") = "'\\\\' | f" := by decide +kernel
  refine ⟨hcompile, fun h => ?_⟩
  have happlied := h backslash "f" (by simp)
  rw [hcompile] at happlied
  exact absurd happlied (by decide +kernel)

end FilterChain
end TemplateMarkup
