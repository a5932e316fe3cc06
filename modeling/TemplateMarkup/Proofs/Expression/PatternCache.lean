import TemplateMarkup.Expression.PatternCache

/-!
# What the cache of patterns remembers

The texts split before leave their patterns in the cache, and a text is split with the first pattern
that was kept under its key. This file defines:

* `Interpolated.parseAfter history chosen text` — a text split behind those of `history`,
* `PatternCache.Recalls cache pairs` — the cache holds the patterns of `pairs`,
* `Delimiters.Overlaps d e` — two pairs that differ in which of two null characters they take for
  the one between them.

A key tells a pair from all others except those that overlap with it (`PatternCache.key_eq_iff`),
so these are the only ones that a text can get the pattern of (`Interpolated.parseAfter_spec`).
-/

namespace TemplateMarkup

/-- The closing delimiter of `d` and the opening one of `e` share some text: both pairs are written
alike with a null character between them. -/
def Delimiters.Overlaps (d e : Delimiters) : Prop :=
  ∃ middle, e.opening = d.opening ++ "\x00" ++ middle ∧ d.closing = middle ++ "\x00" ++ e.closing

theorem Delimiters.Overlaps.null_mem {d e : Delimiters} (h : d.Overlaps e) :
    '\x00' ∈ e.opening.toList ∧ '\x00' ∈ d.closing.toList := by
  rcases h with ⟨middle, hopening, hclosing⟩
  rw [hopening, hclosing]
  simp

namespace PatternCache

variable {cache : PatternCache} {pairs : List Delimiters} {d e : Delimiters}

/-! ## Keys -/

theorem key_toList (d : Delimiters) :
    (key d).toList = d.opening.toList ++ '\x00' :: d.closing.toList := by
  simp [key]

theorem key_eq_of_overlaps (h : d.Overlaps e) : key d = key e := by
  rcases h with ⟨middle, hopening, hclosing⟩
  rw [key, key, hopening, hclosing]
  simp only [String.append_assoc]

/-- One opening delimiter reaches at least as far as the other. -/
theorem eq_or_overlaps {more : List Char} (hopening : e.opening.toList = d.opening.toList ++ more)
    (hclosing : '\x00' :: d.closing.toList = more ++ '\x00' :: e.closing.toList) :
    d = e ∨ d.Overlaps e := by
  cases more with
  | nil =>
      left
      rcases d with ⟨opening, closing⟩
      rcases e with ⟨opening', closing'⟩
      rw [Delimiters.mk.injEq, ← String.toList_inj, ← String.toList_inj]
      exact ⟨by simpa using hopening.symm, by simpa using hclosing⟩
  | cons c middle =>
      right
      obtain ⟨rfl, hrest⟩ := List.cons.inj hclosing
      refine ⟨String.ofList middle, ?_, ?_⟩
      · rw [← String.toList_inj, hopening]
        simp
      · rw [← String.toList_inj, hrest]
        simp

/-- Two pairs have the same key only if they are the same or overlap. -/
theorem key_eq_iff : key d = key e ↔ d = e ∨ d.Overlaps e ∨ e.Overlaps d := by
  constructor
  · intro h
    have hlists : d.opening.toList ++ '\x00' :: d.closing.toList =
        e.opening.toList ++ '\x00' :: e.closing.toList := by
      rw [← key_toList, ← key_toList, h]
    rcases List.append_eq_append_iff.1 hlists with
      ⟨more, hopening, hclosing⟩ | ⟨more, hopening, hclosing⟩
    · exact (eq_or_overlaps hopening hclosing).imp_right .inl
    · exact (eq_or_overlaps hopening hclosing).imp .symm .inr
  · intro h
    rcases h with rfl | h | h
    · rfl
    · exact key_eq_of_overlaps h
    · exact (key_eq_of_overlaps h).symm

/-! ## What is kept -/

/-- Under every key the cache holds the first of `pairs` that has it. -/
def Recalls (cache : PatternCache) (pairs : List Delimiters) : Prop :=
  ∀ k, cache.entries.lookup k = pairs.find? (key · == k)

theorem recalls_empty : Recalls {} [] := by
  intro k
  rfl

theorem Recalls.fetch_fst (h : Recalls cache pairs) (d : Delimiters) :
    (cache.fetch d).1 = (pairs.find? (key · == key d)).getD d := by
  rw [← h, fetch]
  cases cache.entries.lookup (key d) with
  | none => rfl
  | some pattern => rfl

/-- A pattern that is asked for is kept unless its key has one already. -/
theorem Recalls.fetch_snd (h : Recalls cache pairs) (d : Delimiters) :
    Recalls (cache.fetch d).2 (pairs ++ [d]) := by
  intro k
  rw [List.find?_append, ← h k, fetch]
  by_cases hk : key d = k
  · subst hk
    cases hlookup : cache.entries.lookup (key d) with
    | none => simp
    | some pattern => simp [hlookup]
  · have hother : (k == key d) = false := by simpa using fun heq => hk heq.symm
    cases hlookup : cache.entries.lookup (key d) with
    | none => simp [hk, List.lookup_cons, hother]
    | some pattern => simp [hk]

end PatternCache

namespace Interpolated

open PatternCache

variable {history : List (Option Delimiters × String)} {cache : PatternCache}
  {pairs : List Delimiters}

/-! ## Texts one after the other -/

/-- The cache behind the texts of `history`, each with the delimiters asked for. -/
def cacheAfter (cache : PatternCache) (history : List (Option Delimiters × String)) :
    PatternCache :=
  history.foldl (fun cache call => (parseWith? cache call.1 call.2).2) cache

/-- Splits a text behind those of `history`. -/
def parseAfter (history : List (Option Delimiters × String)) (chosen : Option Delimiters)
    (text : String) : Option Interpolated :=
  (parseWith? (cacheAfter {} history) chosen text).1

/-- The pairs of delimiters asked for, the default ones left out. -/
def pairsOf (history : List (Option Delimiters × String)) : List Delimiters :=
  history.filterMap (·.1)

/-- One text. -/
theorem recalls_parseWith? (h : Recalls cache pairs) (chosen : Option Delimiters) (text : String) :
    Recalls (parseWith? cache chosen text).2 (pairs ++ chosen.toList) := by
  cases chosen with
  | none => simpa [parseWith?] using h
  | some d => exact h.fetch_snd d

/-- All texts. -/
theorem recalls_cacheAfter (h : Recalls cache pairs) (history : List (Option Delimiters × String)) :
    Recalls (cacheAfter cache history) (pairs ++ pairsOf history) := by
  induction history generalizing cache pairs with
  | nil => simpa [cacheAfter, pairsOf] using h
  | cons call history ih =>
      have hnext := ih (recalls_parseWith? h call.1 call.2)
      have hpairs : pairs ++ call.1.toList ++ pairsOf history =
          pairs ++ pairsOf (call :: history) := by
        cases hchosen : call.1 <;> simp [pairsOf, hchosen]
      rw [hpairs] at hnext
      exact hnext

/-- A text is split with the first pattern that was made for its key. -/
theorem parseAfter_some (history : List (Option Delimiters × String)) (d : Delimiters)
    (text : String) :
    parseAfter history (some d) text =
      parse? (((pairsOf history).find? (key · == key d)).getD d) text := by
  have hrecalls := recalls_cacheAfter recalls_empty history
  rw [List.nil_append] at hrecalls
  rw [← hrecalls.fetch_fst d]
  rfl

/-- Without a pair that overlaps, the history does not matter. -/
theorem parseAfter_eq_of_not_overlaps {d : Delimiters}
    (h : ∀ e ∈ pairsOf history, ¬d.Overlaps e ∧ ¬e.Overlaps d) (text : String) :
    parseAfter history (some d) text = parse? d text := by
  rw [parseAfter_some]
  cases hfound : (pairsOf history).find? (key · == key d) with
  | none => rfl
  | some e =>
      -- What is found has the same key, so it is the pair itself.
      have hkey : key d = key e := by
        have hsame := List.find?_some hfound
        exact (beq_iff_eq.1 hsame).symm
      rcases key_eq_iff.1 hkey with rfl | hoverlaps | hoverlaps
      · rfl
      · exact absurd hoverlaps (h e (List.mem_of_find?_eq_some hfound)).1
      · exact absurd hoverlaps (h e (List.mem_of_find?_eq_some hfound)).2

/-- What the texts split before can do to a text: it is split with the first pattern that was made
for its key. That is the pattern of its own delimiters, as without any history, unless an earlier
pair overlaps with them, for which a null character has to stand in an opening delimiter. -/
theorem parseAfter_spec (history : List (Option Delimiters × String))
    (chosen : Option Delimiters) (text : String) :
    (parseAfter history chosen text = match chosen with
      | none => parse? .braces text
      | some d => parse? (((pairsOf history).find? (key · == key d)).getD d) text) ∧
    ((∀ d ∈ chosen, ∀ e ∈ pairsOf history, ¬d.Overlaps e ∧ ¬e.Overlaps d) →
      parseAfter history chosen text = parseAfter [] chosen text) ∧
    ((∀ d ∈ chosen.toList ++ pairsOf history, '\x00' ∉ d.opening.toList) →
      parseAfter history chosen text = parseAfter [] chosen text) := by
  cases chosen with
  | none => exact ⟨rfl, fun _ => rfl, fun _ => rfl⟩
  | some d =>
      have hapart (h : ∀ e ∈ pairsOf history, ¬d.Overlaps e ∧ ¬e.Overlaps d) :
          parseAfter history (some d) text = parseAfter [] (some d) text :=
        calc
          parseAfter history (some d) text = parse? d text := parseAfter_eq_of_not_overlaps h text
          _ = parseAfter [] (some d) text := rfl
      refine ⟨parseAfter_some history d text, fun h => hapart (h d rfl), fun h => hapart ?_⟩
      intro e he
      constructor
      · intro hoverlaps
        exact h e (List.mem_append_right _ he) hoverlaps.null_mem.1
      · intro hoverlaps
        exact h d (List.mem_append_left _ (by simp)) hoverlaps.null_mem.1

/-- Two pairs that overlap: the second text is looked through with the pattern of the first pair,
and its interpolation is not found. -/
theorem parseAfter_overlapping :
    parseAfter [(some ⟨"a\x00b", "c"⟩, "a\x00bxc")] (some ⟨"a", "b\x00c"⟩) "axb\x00c" = none ∧
      parseAfter [] (some ⟨"a", "b\x00c"⟩) "axb\x00c" = some ⟨[.binding "x"]⟩ := by
  decide +kernel

end Interpolated
end TemplateMarkup
