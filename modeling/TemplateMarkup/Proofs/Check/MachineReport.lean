import TemplateMarkup.Proofs.Check.Positions
import TemplateMarkup.Proofs.Template.Wording

/-!
# Reports for machines

In the machine format each warning has an entry, which ends with a line feed. The entry tells the
positions, the message and the code of the warning. It is one line unless the warning quotes text
that is more than one:

* `Warning.Kind.breaks_message` — the line feeds of a message are those of its names and quotes,
* `Report.MachineEntry source file w entry` — `entry` is what the format says about `w`,
* `Report.machine_entries` — the report has one entry for each warning, and as many lines more as
  there are line feeds in quotes.
-/

namespace TemplateMarkup

open Text

namespace Text

/-! ## Line feeds -/

/-- The number of line feeds in a text. -/
def breaks (text : String) : Nat :=
  text.toList.count '\n'

@[simp] theorem breaks_append (text more : String) :
    breaks (text ++ more) = breaks text + breaks more := by
  simp [breaks]

theorem breaks_eq_zero {text : String} (h : '\n' ∉ text.toList) : breaks text = 0 :=
  List.count_eq_zero.2 h

/-- A fixed text is given by its characters. -/
theorem breaks_ofList {cs : List Char} (h : '\n' ∉ cs) : breaks (String.ofList cs) = 0 :=
  breaks_eq_zero (by rwa [String.toList_ofList])

theorem breaks_repr (n : Nat) : breaks (Nat.repr n) = 0 := by
  refine breaks_eq_zero fun hmem => ?_
  rw [Nat.toList_repr] at hmem
  cases Nat.isDigit_of_mem_toDigits (by decide) (by decide) hmem

/-- Up to a line feed there are as many lines as line feeds. -/
theorem length_lines_append (cs rest : List Char) :
    (lines (cs ++ '\n' :: rest)).length = cs.count '\n' + 1 + (lines rest).length := by
  induction cs using by_lines with
  | last part hpart =>
      rw [lines_append hpart, List.length_cons, List.count_eq_zero.2 hpart]
      omega
  | line part cs hpart ih =>
      rw [List.append_assoc, List.cons_append, lines_append hpart, List.length_cons, ih,
        List.count_append, List.count_eq_zero.2 hpart, List.count_cons_self]
      omega

theorem length_lines_flatMap (entries : List (List Char)) :
    (lines (entries.flatMap (· ++ ['\n']))).length =
      entries.length + entries.flatten.count '\n' := by
  induction entries with
  | nil => rfl
  | cons entry entries ih =>
      rw [List.flatMap_cons, List.append_assoc, List.singleton_append, length_lines_append, ih,
        List.length_cons, List.flatten_cons, List.count_append]
      omega

/-- Entries of one line each are the lines of their report. -/
theorem lines_flatMap {entries : List (List Char)} (hbreaks : ∀ entry ∈ entries, '\n' ∉ entry)
    (hlast : ∀ entry ∈ entries, entry.getLast? ≠ some '\r') :
    lines (entries.flatMap (· ++ ['\n'])) = entries := by
  induction entries with
  | nil => rfl
  | cons entry entries ih =>
      rw [List.forall_mem_cons] at hbreaks hlast
      rw [List.flatMap_cons, List.append_assoc, List.singleton_append, lines_append hbreaks.1,
        withoutReturn, if_neg hlast.1, ih hbreaks.2 hlast.2]

end Text

/-! ## Messages -/

namespace Warning.Kind

/-- All that a warning quotes. -/
def quoted (kind : Kind) : List Char :=
  kind.quotes.flatMap String.toList

/-- The fixed words of a message have no line feeds. -/
theorem breaks_message (kind : Kind) :
    Text.breaks kind.message =
      (kind.names.flatMap String.toList).count '\n' + kind.quoted.count '\n' := by
  cases kind
  case' malformedTag fragment => change Text.breaks (.ofList _ ++ fragment ++ .ofList _) = _
  case' missingEndTag tag => change Text.breaks (.ofList _ ++ tag ++ .ofList _) = _
  case' implicitlyClosed tag closer =>
    change Text.breaks (.ofList _ ++ tag ++ .ofList _ ++ closer ++ .ofList _) = _
  case' invalidLoop expression => change Text.breaks (.ofList _ ++ expression) = _
  case' elseWithoutIf condition tag => cases condition
  case' elseWithoutIf.none => change Text.breaks (.ofList _ ++ .ofList _ ++ tag ++ .ofList _) = _
  case' elseWithoutIf.some expression =>
    change Text.breaks (.ofList _ ++ expression ++ .ofList _ ++ .ofList _ ++ tag ++ .ofList _) = _
  case' textBetweenBranches text => change Text.breaks (.ofList _ ++ text ++ .ofList _) = _
  case' multipleRoots => change Text.breaks (.ofList _ ++ .ofList _) = _
  case' unstableRoot reason => change Text.breaks (.ofList _ ++ reason ++ .ofList _) = _
  case' noRoot => change Text.breaks (.ofList _) = _
  case' textOutsideRoot text => change Text.breaks (.ofList _ ++ text ++ .ofList _) = _
  case' keyedTemplate => change Text.breaks (.ofList _) = _
  case' interpolationInAttribute name value =>
    change Text.breaks (name ++ .ofList _ ++ value ++ .ofList _ ++ .ofList _) = _
  case' modelOnLoopItem tag item =>
    change Text.breaks (.ofList _ ++ tag ++ .ofList _ ++ item ++ .ofList _ ++ .ofList _) = _
  case' passiveWithPrevent => change Text.breaks (.ofList _ ++ .ofList _) = _
  all_goals simp (disch := decide) only [breaks_append, breaks_ofList]
  all_goals simp [quoted, Text.breaks, Nat.add_comm]

theorem breaks_code (kind : Kind) : Text.breaks kind.code = 0 := by
  cases kind with
  | _ => exact breaks_ofList (by decide)

/-- Names without line feeds leave those of the quotes. -/
theorem Worded.breaks_message {p : Char → Prop} {kind : Kind} (h : kind.Worded p) :
    Text.breaks kind.message = kind.quoted.count '\n' := by
  have hnames : '\n' ∉ kind.names.flatMap String.toList := by
    intro hmem
    rcases List.mem_flatMap.1 hmem with ⟨name, hname, hnewline⟩
    exact h.names name hname hnewline
  rw [Kind.breaks_message, List.count_eq_zero.2 hnames, Nat.zero_add]

end Warning.Kind

/-! ## Entries -/

namespace Report

variable {options : Options} {source file : String} {parsed : Parsed} {w : Warning}

/-- What the format says about a warning between two places. -/
def machineLine (file : String) (start stop : LineCol) (w : Warning) : String :=
  "WARNING " ++ file ++ ":" ++ Nat.repr (start.line + 1) ++ ":" ++ Nat.repr (start.col + 1) ++
    ":" ++ Nat.repr (stop.line + 1) ++ ":" ++ Nat.repr (stop.col + 1) ++ " " ++ w.message ++
    " (" ++ w.code ++ ")"

/-- The entry of a warning, without the line feed behind it. It has the places of both ends of the
warning, and the line feeds of what is quoted. -/
structure MachineEntry (source file : String) (w : Warning) (entry : List Char) : Prop where
  written : ∃ start stop, (LineIndex.ofText source).lineCol? w.span.start = some start ∧
    (LineIndex.ofText source).lineCol? w.span.stop = some stop ∧
    entry = (machineLine file start stop w).toList
  breaks : entry.count '\n' = w.kind.quoted.count '\n'

theorem breaks_machineLine (hfile : '\n' ∉ file.toList) (start stop : LineCol) (w : Warning) :
    Text.breaks (machineLine file start stop w) = Text.breaks w.kind.message := by
  have hcode : Text.breaks w.code = 0 := w.kind.breaks_code
  have hmessage : Text.breaks w.message = Text.breaks w.kind.message := rfl
  unfold machineLine
  simp [breaks_repr, hcode, hmessage, breaks_eq_zero hfile, breaks_eq_zero]

theorem getLast?_machineLine (file : String) (start stop : LineCol) (w : Warning) :
    (machineLine file start stop w).toList.getLast? = some ')' := by
  unfold machineLine
  rw [String.toList_append, List.getLast?_append_of_ne_nil _ (by decide)]
  rfl

/-- The entry of a warning whose span is in the source. -/
def entryOf (source file : String) (w : Warning) : List Char :=
  let index := LineIndex.ofText source
  (machineLine file ((index.lineCol? w.span.start).getD ⟨0, 0⟩)
    ((index.lineCol? w.span.stop).getD ⟨0, 0⟩) w).toList

theorem machine_toList (warnings : List Warning) (file source : String) :
    (text .machine warnings file source).toList =
      (warnings.map (entryOf source file)).flatMap (· ++ ['\n']) := by
  have hentry : ∀ w, (machineEntry (.ofText source) file w).toList =
      entryOf source file w ++ ['\n'] := by
    intro w
    unfold machineEntry entryOf machineLine position
    simp
  simp [text, machine, String.toList_join, List.flatMap_map, hentry]

theorem machineEntry_entryOf {p : Char → Prop} (hfile : '\n' ∉ file.toList)
    (hspan : w.span.Placed source) (hkind : w.kind.Worded p) :
    MachineEntry source file w (entryOf source file w) where
  written := by
    rcases Option.isSome_iff_exists.1 hspan.usable.start_lineCol with ⟨start, hstart⟩
    rcases Option.isSome_iff_exists.1 hspan.usable.stop_lineCol with ⟨stop, hstop⟩
    refine ⟨start, stop, hstart, hstop, ?_⟩
    unfold entryOf
    dsimp only
    rw [hstart, hstop]
    rfl
  breaks := (breaks_machineLine hfile _ _ w).trans hkind.breaks_message

theorem count_entries {warnings : List Warning} {entries : List (List Char)}
    (h : List.Forall₂ (MachineEntry source file) warnings entries) :
    entries.flatten.count '\n' = (warnings.flatMap (·.kind.quoted)).count '\n' := by
  induction h with
  | nil => rfl
  | cons hentry _ ih =>
      rw [List.flatten_cons, List.flatMap_cons, List.count_append, List.count_append, ih,
        hentry.breaks]

/-- A report for machines has one entry for each warning, in order and each behind the other. It has
as many lines as warnings, and one more for each line feed in what they quote. Without such line
feeds the lines are the entries; that is so for every source that has neither a line feed nor a
character reference. -/
theorem machine_entries (h : parse options source = .ok parsed) (hfile : '\n' ∉ file.toList) :
    ∃ entries : List (List Char),
      (text .machine parsed.warnings file source).toList = entries.flatMap (· ++ ['\n']) ∧
      List.Forall₂ (MachineEntry source file) parsed.warnings entries ∧
      (lines (text .machine parsed.warnings file source).toList).length =
        parsed.warnings.length + (parsed.warnings.flatMap (·.kind.quoted)).count '\n' ∧
      ((∀ w ∈ parsed.warnings, '\n' ∉ w.kind.quoted) →
        lines (text .machine parsed.warnings file source).toList = entries) ∧
      ('\n' ∉ source.toList → '&' ∉ source.toList →
        ∀ w ∈ parsed.warnings, '\n' ∉ w.kind.quoted) := by
  have hentry : ∀ w ∈ parsed.warnings, MachineEntry source file w (entryOf source file w) := by
    intro w hw
    exact machineEntry_entryOf hfile ((parse_within h).2 w hw)
      (parse_worded alphabet_all (fun _ _ => trivial) h w hw)
  have hentries : List.Forall₂ (MachineEntry source file) parsed.warnings
      (parsed.warnings.map (entryOf source file)) := by
    rw [List.forall₂_map_right_iff, List.forall₂_same]
    exact hentry
  rw [machine_toList]
  refine ⟨_, rfl, hentries, ?_, fun hunbroken => ?_, fun hnewline hampersand w hw hmem => ?_⟩
  · rw [length_lines_flatMap, List.length_map, count_entries hentries]
  · refine lines_flatMap (fun entry hmem => ?_) fun entry hmem => ?_
    · rcases List.mem_map.1 hmem with ⟨w, hw, rfl⟩
      rw [← List.count_eq_zero, (hentry w hw).breaks]
      exact List.count_eq_zero.2 (hunbroken w hw)
    · rcases List.mem_map.1 hmem with ⟨w, _, rfl⟩
      unfold entryOf
      rw [getLast?_machineLine]
      decide
  · have hsource : ∀ c ∈ source.toList, c ≠ '\n' ∧ c ≠ '&' := fun c hc =>
      ⟨fun heq => hnewline (heq ▸ hc), fun heq => hampersand (heq ▸ hc)⟩
    rcases List.mem_flatMap.1 hmem with ⟨quote, hquote, hmem⟩
    exact ((parse_worded alphabet_plain hsource h w hw).quotes quote hquote _ hmem).1 rfl

theorem exists_parsed {warnings : List Warning}
    (h : ((parse options source).map (·.warnings)).toOption = some warnings) :
    ∃ parsed, parse options source = .ok parsed ∧ parsed.warnings = warnings := by
  cases hparse : parse options source with
  | error error =>
      rw [hparse] at h
      cases h
  | ok parsed =>
      rw [hparse] at h
      exact ⟨parsed, rfl, Option.some.inj h⟩

/-- An element without an end tag and text outside the root, a line for each. -/
theorem machine_entries_two :
    ∃ parsed, parse {} "<p><b></p>text" = .ok parsed ∧ '\n' ∉ "app.html".toList ∧
      ∃ first second,
        lines (text .machine parsed.warnings "app.html" "<p><b></p>text").toList =
          [first, second] ∧
        ∃ w w', parsed.warnings = [w, w'] ∧
          MachineEntry "<p><b></p>text" "app.html" w first ∧
          MachineEntry "<p><b></p>text" "app.html" w' second := by
  have hread : ((parse {} "<p><b></p>text").map (·.warnings)).toOption =
      some [⟨.missingEndTag "b", ⟨3, 6⟩⟩, ⟨.textOutsideRoot "text", ⟨10, 14⟩⟩] := by
    decide +kernel
  rcases exists_parsed hread with ⟨parsed, h, hwarnings⟩
  have hfile : '\n' ∉ "app.html".toList := by decide
  rcases machine_entries h hfile with ⟨entries, _, hentries, _, hlines, hplain⟩
  have hlines := hlines (hplain (by decide) (by decide))
  rw [hwarnings] at hentries
  cases hentries with
  | cons hfirst hrest =>
      cases hrest with
      | cons hsecond hnil =>
          cases hnil
          exact ⟨parsed, h, hfile, _, _, hlines, _, _, hwarnings, hfirst, hsecond⟩

/-- One warning in two lines: about text with a line feed, and about a loop in whose source a
reference stands for the line feed. -/
theorem machine_broken :
    (∃ parsed, parse {} "<p></p>a\nb" = .ok parsed ∧ parsed.warnings.length = 1 ∧
      lines (text .machine parsed.warnings "app.html" "<p></p>a\nb").toList =
        ["WARNING app.html:1:8:2:2 text \"a".toList,
          "b\" outside root element will be ignored. (text-outside-root)".toList]) ∧
    '\n' ∉ "<p v-for=\"a&#10;b\"></p>".toList ∧
    ∃ parsed, parse {} "<p v-for=\"a&#10;b\"></p>" = .ok parsed ∧ parsed.warnings.length = 1 ∧
      lines (text .machine parsed.warnings "app.html" "<p v-for=\"a&#10;b\"></p>").toList =
        ["WARNING app.html:1:1:1:20 invalid v-for expression: a".toList,
          "b (invalid-for-expression)".toList] := by
  have htext : ((parse {} "<p></p>a\nb").map (·.warnings)).toOption =
      some [⟨.textOutsideRoot "a\nb", ⟨7, 10⟩⟩] := by
    decide +kernel
  have hloop : ((parse {} "<p v-for=\"a&#10;b\"></p>").map (·.warnings)).toOption =
      some [⟨.invalidLoop "a\nb", ⟨0, 19⟩⟩] := by
    decide +kernel
  refine ⟨?_, by decide, ?_⟩
  · rcases exists_parsed htext with ⟨parsed, h, hwarnings⟩
    refine ⟨parsed, h, by rw [hwarnings]; rfl, ?_⟩
    rw [hwarnings]
    decide +kernel
  · rcases exists_parsed hloop with ⟨parsed, h, hwarnings⟩
    refine ⟨parsed, h, by rw [hwarnings]; rfl, ?_⟩
    rw [hwarnings]
    decide +kernel

end Report
end TemplateMarkup
