import Mathlib.Algebra.Ring.Nat
import Mathlib.Logic.Relation
import TemplateMarkup.Proofs.Check.Selection

/-!
# Checking files side by side

`Check.checkFiles` checks one file after the other, but nothing in a check asks for that. Here every
file has a task of its own. The tasks share one count of warnings, and go on in any order until all
of them are finished, or one of them is broken. This file defines:

* `Check.checkFile options f` — what the task of a file has to find out,
* `Check.Pool` — all tasks, each in its `Check.Phase`, and the count,
* `Check.Pool.Step options p q` — one of the tasks goes on,
* `Check.Pool.Answers arguments p answer` — what is answered once the tasks have come this far,
* `Check.Possible arguments w answer` — the tasks of a check, in some order, lead to `answer`.

Whatever the order, there is an answer, and it is that of `Check.run` (`Check.possible_iff`). With
the order of the files that are found, this is all that a check could depend on
(`Check.run_any_order`).
-/

namespace TemplateMarkup
namespace Check

variable {arguments : Arguments} {options : Options} {files : List SourceFile}

/-! ## One file after the other -/

/-- Checks one file; there is nothing to report of a file that cannot be read. -/
def checkFile (options : Options) (f : SourceFile) : Except MemberPath.Error (Option Checked) :=
  match f.content.bind String.fromUTF8? with
  | none => .ok none
  | some source => checkSource options (relativePath f) f.name source

/-- What is reported of a file. -/
def checked? (options : Options) (f : SourceFile) : Option Checked :=
  match checkFile options f with
  | .ok output => output
  | .error _ => none

theorem checkFiles_eq_ok (h : ∀ f ∈ files, ∃ output, checkFile options f = .ok output)
    (results : Results) :
    ∃ unreadable, checkFiles options results files =
      .ok ⟨results.checked.reverse ++ files.filterMap (checked? options), unreadable⟩ := by
  induction files generalizing results with
  | nil => exact ⟨results.unreadable.reverse, by simp [checkFiles]⟩
  | cons f files ih =>
      rcases List.forall_mem_cons.1 h with ⟨⟨output, houtput⟩, hfiles⟩
      have hchecked : checked? options f = output := by simp [checked?, houtput]
      unfold checkFile at houtput
      unfold checkFiles
      split at houtput
      · next hcontent =>
          cases houtput
          simpa [hcontent, hchecked] using ih hfiles _
      · next source hcontent =>
          cases output with
          | none => simpa [hcontent, houtput, hchecked] using ih hfiles results
          | some checked =>
              simpa [hcontent, houtput, hchecked] using
                ih hfiles { results with checked := checked :: results.checked }

theorem checkFiles_eq_error {f : SourceFile} {error : MemberPath.Error} (hf : f ∈ files)
    (h : checkFile options f = .error error) (results : Results) :
    checkFiles options results files = .error error := by
  induction files generalizing results with
  | nil => cases hf
  | cons first files ih =>
      -- There is only one way for a path to be broken, so it is the same for any file.
      have hsame (other : MemberPath.Error) : other = error := by
        cases other
        cases error
        rfl
      rcases List.mem_cons.1 hf with rfl | hlater
      · cases hcontent : f.content.bind String.fromUTF8? with
        | none =>
            rw [checkFile, hcontent] at h
            cases h
        | some source =>
            rw [checkFile, hcontent] at h
            dsimp only at h
            rw [checkFiles, hcontent]
            dsimp only
            rw [h]
      · unfold checkFiles
        split
        · exact ih hlater _
        · split
          · next other _ => rw [hsame other]
          · exact ih hlater _
          · exact ih hlater _

/-! ## Tasks -/

/-- How far the task of a file has come. -/
inductive Phase where
  | waiting
  /-- The warnings are counted, and the output is still to be handed in. -/
  | counted (checked : Checked)
  | finished (output : Option Checked)
  | broken (error : MemberPath.Error)

namespace Phase

/-- The phase is one that the task of `f` can come to. -/
def Fits (options : Options) (f : SourceFile) : Phase → Prop
  | waiting => True
  | counted checked => checkFile options f = .ok (some checked)
  | finished output => checkFile options f = .ok output
  | broken error => checkFile options f = .error error

/-- The output that the task has handed in. -/
def output? : Phase → Option Checked
  | finished output => output
  | _ => none

/-- The warnings that the task has counted. -/
def warnings : Phase → List Warning
  | counted checked => checked.warnings
  | finished (some checked) => checked.warnings
  | _ => []

/-- The number of steps that the task has left at most. -/
def remaining : Phase → Nat
  | waiting => 2
  | counted _ => 1
  | finished _ => 0
  | broken _ => 0

end Phase

/-- The tasks of all files, in the order of the files, and the number of warnings counted so far. -/
structure Pool where
  tasks : List (SourceFile × Phase)
  count : Nat

namespace Pool

variable {p q : Pool} {before after : List (SourceFile × Phase)} {f : SourceFile}
  {phase phase' : Phase} {count count' : Nat} {answer : Except Failure (Summary × String)}

def start (files : List SourceFile) : Pool :=
  { tasks := files.map (·, .waiting), count := 0 }

/-- One task goes on. Adding to the count and handing in the output are steps of their own: others
may go on between them. -/
inductive Step (options : Options) : Pool → Pool → Prop where
  | skip {before after : List (SourceFile × Phase)} {f : SourceFile} {count : Nat} :
      checkFile options f = .ok none →
      Step options ⟨before ++ (f, .waiting) :: after, count⟩
        ⟨before ++ (f, .finished none) :: after, count⟩
  | count {before after : List (SourceFile × Phase)} {f : SourceFile} {count : Nat}
      {checked : Checked} :
      checkFile options f = .ok (some checked) →
      Step options ⟨before ++ (f, .waiting) :: after, count⟩
        ⟨before ++ (f, .counted checked) :: after, count + checked.warnings.length⟩
  | finish {before after : List (SourceFile × Phase)} {f : SourceFile} {count : Nat}
      {checked : Checked} :
      Step options ⟨before ++ (f, .counted checked) :: after, count⟩
        ⟨before ++ (f, .finished (some checked)) :: after, count⟩
  | fail {before after : List (SourceFile × Phase)} {f : SourceFile} {count : Nat}
      {error : MemberPath.Error} :
      checkFile options f = .error error →
      Step options ⟨before ++ (f, .waiting) :: after, count⟩
        ⟨before ++ (f, .broken error) :: after, count⟩

/-- Tasks go on, in any order. -/
def Reaches (options : Options) : Pool → Pool → Prop :=
  Relation.ReflTransGen (Step options)

/-- The answer of a check: all tasks have handed in their outputs, which stand in the order of the
files, or one task is broken. -/
inductive Answers (arguments : Arguments) (p : Pool) :
    Except Failure (Summary × String) → Prop where
  | done {summary : Summary} :
      (∀ task ∈ p.tasks, ∃ output, task.2 = .finished output) →
      summary = ⟨p.tasks.length, p.count, arguments.failOnWarnings⟩ →
      Answers arguments p
        (.ok (summary, report arguments.output summary (p.tasks.filterMap (·.2.output?))))
  | failed {f : SourceFile} {error : MemberPath.Error} :
      (f, .broken error) ∈ p.tasks → Answers arguments p (.error (.brokenPath error))

/-! ## What the tasks have in common -/

/-- The tasks are those of `files`, each has found out what there is to find out, and all that they
have counted is in the count. -/
structure Sound (options : Options) (files : List SourceFile) (p : Pool) : Prop where
  files_eq : p.tasks.map Prod.fst = files
  fits : ∀ task ∈ p.tasks, task.2.Fits options task.1
  count_eq : p.count = (p.tasks.map fun task => task.2.warnings.length).sum

theorem sound_start (options : Options) (files : List SourceFile) :
    (start files).Sound options files where
  files_eq := by simp [start, Function.comp_def]
  fits := by simp [start, Phase.Fits]
  count_eq := by simp [start, Function.comp_def, Phase.warnings]

/-- One task changes its phase. -/
theorem Sound.update (h : Sound options files ⟨before ++ (f, phase) :: after, count⟩)
    (hfits : phase'.Fits options f)
    (hcount : count' + phase.warnings.length = count + phase'.warnings.length) :
    Sound options files ⟨before ++ (f, phase') :: after, count'⟩ where
  files_eq := by simpa using h.files_eq
  fits := by
    have hold := h.fits
    simp only [List.forall_mem_append, List.forall_mem_cons] at hold ⊢
    exact ⟨hold.1, hfits, hold.2.2⟩
  count_eq := by
    have hsum := h.count_eq
    simp only [List.map_append, List.map_cons, List.sum_append, List.sum_cons] at hsum ⊢
    omega

theorem Sound.fits_mid (h : Sound options files ⟨before ++ (f, phase) :: after, count⟩) :
    phase.Fits options f :=
  h.fits (f, phase) (by simp)

theorem Sound.step (h : p.Sound options files) (hstep : Step options p q) :
    q.Sound options files := by
  cases hstep with
  | skip hcheck => exact h.update hcheck rfl
  | count hcheck => exact h.update hcheck (Nat.add_right_comm _ _ _)
  | finish => exact h.update h.fits_mid rfl
  | fail hcheck => exact h.update hcheck rfl

theorem Sound.reaches (h : p.Sound options files) (hreaches : Reaches options p q) :
    q.Sound options files := by
  induction hreaches with
  | refl => exact h
  | tail _ hstep ih => exact ih.step hstep

/-! ## All orders lead to an answer -/

def remaining (p : Pool) : Nat :=
  (p.tasks.map fun task => task.2.remaining).sum

/-- Every step brings the tasks nearer to their end. -/
theorem Step.remaining_lt (h : Step options p q) : q.remaining < p.remaining := by
  cases h with
  | skip _ => simp [remaining, Phase.remaining]
  | count _ => simp [remaining, Phase.remaining]
  | finish => simp [remaining, Phase.remaining]
  | fail _ => simp [remaining, Phase.remaining]

/-- A task that is not at its end can go on, wherever the others are. -/
theorem exists_step (options : Options) {task : SourceFile × Phase} (htask : task ∈ p.tasks)
    (hremaining : task.2.remaining ≠ 0) : ∃ q, Step options p q := by
  rcases p with ⟨tasks, count⟩
  rcases List.append_of_mem htask with ⟨before, after, rfl⟩
  rcases task with ⟨f, phase⟩
  cases phase with
  | waiting =>
      cases hcheck : checkFile options f with
      | error error => exact ⟨_, .fail hcheck⟩
      | ok output =>
          cases output with
          | none => exact ⟨_, .skip hcheck⟩
          | some checked => exact ⟨_, .count hcheck⟩
  | counted checked => exact ⟨_, .finish⟩
  | finished output => exact absurd rfl hremaining
  | broken error => exact absurd rfl hremaining

/-- Where all tasks are at their end there is an answer. -/
theorem exists_answer_of_remaining (arguments : Arguments)
    (h : ∀ task ∈ p.tasks, task.2.remaining = 0) : ∃ answer, p.Answers arguments answer := by
  by_cases hbroken : ∃ f error, (f, Phase.broken error) ∈ p.tasks
  · rcases hbroken with ⟨f, error, hmem⟩
    exact ⟨_, .failed hmem⟩
  · refine ⟨_, .done (fun task htask => ?_) rfl⟩
    rcases task with ⟨f, phase⟩
    have hend := h (f, phase) htask
    cases phase with
    | waiting => cases hend
    | counted checked => cases hend
    | finished output => exact ⟨output, rfl⟩
    | broken error => exact absurd ⟨f, error, htask⟩ hbroken

/-- From wherever the tasks are, they come to an answer. -/
theorem exists_answer (arguments : Arguments) (options : Options) (p : Pool) :
    ∃ q answer, Reaches options p q ∧ q.Answers arguments answer := by
  induction hn : p.remaining using Nat.strongRecOn generalizing p with
  | ind n ih =>
      by_cases hend : ∀ task ∈ p.tasks, task.2.remaining = 0
      · rcases exists_answer_of_remaining arguments hend with ⟨answer, hanswer⟩
        exact ⟨p, answer, .refl, hanswer⟩
      · -- Any task that is left may go on first.
        simp only [not_forall] at hend
        rcases hend with ⟨task, htask, hremaining⟩
        rcases exists_step options htask hremaining with ⟨next, hstep⟩
        have hlt : next.remaining < n := hn ▸ hstep.remaining_lt
        rcases ih _ hlt next rfl with ⟨q, answer, hreaches, hanswer⟩
        exact ⟨q, answer, .head hstep hreaches, hanswer⟩

/-! ## All orders lead to the same answer -/

/-- What a check answers when it checks one file after the other. -/
def inOrder (arguments : Arguments) (options : Options) (files : List SourceFile) :
    Except Failure (Summary × String) :=
  match checkFiles options {} files with
  | .error error => .error (.brokenPath error)
  | .ok results =>
      let summary : Summary :=
        ⟨files.length, (results.checked.flatMap (·.warnings)).length, arguments.failOnWarnings⟩
      .ok (summary, report arguments.output summary results.checked)

/-- A finished task has handed in what is reported of its file, and counted its warnings. -/
theorem Sound.finished (h : p.Sound options files) {task : SourceFile × Phase}
    (htask : task ∈ p.tasks) (hend : ∃ output, task.2 = .finished output) :
    checkFile options task.1 = .ok (checked? options task.1) ∧
      task.2.output? = checked? options task.1 ∧
      task.2.warnings.length = ((checked? options task.1).elim [] (·.warnings)).length := by
  rcases hend with ⟨output, houtput⟩
  have hfits : checkFile options task.1 = .ok output := by
    simpa [houtput, Phase.Fits] using h.fits task htask
  have hchecked : checked? options task.1 = output := by simp [checked?, hfits]
  rw [houtput, hchecked]
  refine ⟨hfits, rfl, ?_⟩
  cases output with
  | none => rfl
  | some checked => rfl

theorem length_flatMap_warnings (options : Options) (files : List SourceFile) :
    ((files.filterMap (checked? options)).flatMap (·.warnings)).length =
      (files.map fun f => ((checked? options f).elim [] (·.warnings)).length).sum := by
  induction files with
  | nil => rfl
  | cons f files ih => cases hchecked : checked? options f <;> simp [hchecked, ih]

/-- All files can be checked, and each is reported in its place. -/
theorem inOrder_eq_ok {summary : Summary} {text : String}
    (h : inOrder arguments options files = .ok (summary, text)) :
    summary = ⟨files.length,
        ((files.filterMap (checked? options)).map (·.warnings.length)).sum,
        arguments.failOnWarnings⟩ ∧
      text = report arguments.output summary (files.filterMap (checked? options)) := by
  have hok : ∀ f ∈ files, ∃ output, checkFile options f = .ok output := by
    intro f hf
    cases hcheck : checkFile options f with
    | ok output => exact ⟨output, rfl⟩
    | error error =>
        rw [inOrder, checkFiles_eq_error hf hcheck] at h
        cases h
  rcases checkFiles_eq_ok hok {} with ⟨unreadable, hchecked⟩
  rw [inOrder, hchecked] at h
  simp only [List.reverse_nil, List.nil_append, List.length_flatMap] at h
  cases h
  exact ⟨rfl, rfl⟩

/-- Whatever the order of the tasks, the answer is that of checking one file after the other. -/
theorem Sound.answer_eq (h : p.Sound options files) (hanswer : p.Answers arguments answer) :
    answer = inOrder arguments options files := by
  cases hanswer with
  | @failed f error hmem =>
      have hf : f ∈ files := by
        rw [← h.files_eq]
        exact List.mem_map_of_mem hmem
      rw [inOrder, checkFiles_eq_error hf (h.fits _ hmem)]
  | @done summary hend hsummary =>
      have hfiles : files = p.tasks.map Prod.fst := h.files_eq.symm
      have hok : ∀ f ∈ files, ∃ output, checkFile options f = .ok output := by
        intro f hf
        rw [hfiles] at hf
        rcases List.mem_map.1 hf with ⟨task, htask, rfl⟩
        exact ⟨_, (h.finished htask (hend task htask)).1⟩
      have houtputs : p.tasks.filterMap (·.2.output?) = files.filterMap (checked? options) := by
        rw [hfiles, List.filterMap_map]
        exact List.filterMap_congr fun task htask => (h.finished htask (hend task htask)).2.1
      have hcount : p.count =
          ((files.filterMap (checked? options)).flatMap (·.warnings)).length := by
        rw [h.count_eq, length_flatMap_warnings, hfiles, List.map_map]
        exact congrArg _ (List.map_congr_left fun task htask =>
          (h.finished htask (hend task htask)).2.2)
      have hlength : p.tasks.length = files.length := by rw [hfiles, List.length_map]
      rcases checkFiles_eq_ok hok {} with ⟨unreadable, hchecked⟩
      simp [inOrder, hchecked, hsummary, hcount, hlength, houtputs]

end Pool

/-! ## The whole check -/

section

variable {w w' : Workspace} {answer : Except Failure (Summary × String)}

/-- What of the outcome of a check does not go to the notices. -/
def Outcome.visible (outcome : Outcome) : Summary × String :=
  (outcome.summary, outcome.report)

/-- The settings of a check: those of the workspace, and what the arguments say. -/
def settingsFor (arguments : Arguments) (w : Workspace) : Settings :=
  (Settings.load w.settings).1.withArguments arguments

/-- Whether a check looks into a file. -/
def selects (arguments : Arguments) (w : Workspace) (f : SourceFile) : Bool :=
  match excluded (settingsFor arguments w) with
  | .error _ => false
  | .ok globs => isSelected (settingsFor arguments w) globs f

theorem selects_eq {globs : List (List Glob.Token)}
    (h : excluded (settingsFor arguments w) = .ok globs) :
    selects arguments w = isSelected (settingsFor arguments w) globs := by
  funext f
  simp [selects, h]

/-- An answer of a check whose tasks go on in some order. -/
inductive Possible (arguments : Arguments) (w : Workspace) :
    Except Failure (Summary × String) → Prop where
  | invalidGlob {error : Glob.Error} :
      excluded (settingsFor arguments w) = .error error →
      Possible arguments w (.error (.invalidGlob error))
  | answered {globs : List (List Glob.Token)} {p : Pool}
      {answer : Except Failure (Summary × String)} :
      excluded (settingsFor arguments w) = .ok globs →
      Pool.Reaches (settingsFor arguments w).options
        (.start (select (settingsFor arguments w) globs w.files)) p →
      p.Answers arguments answer → Possible arguments w answer

theorem run_eq_error {error : Glob.Error} (h : excluded (settingsFor arguments w) = .error error) :
    run arguments w = .error (.invalidGlob error) := by
  unfold settingsFor at h
  simp [run, h]

theorem run_visible {globs : List (List Glob.Token)}
    (h : excluded (settingsFor arguments w) = .ok globs) :
    (run arguments w).map Outcome.visible =
      Pool.inOrder arguments (settingsFor arguments w).options
        (select (settingsFor arguments w) globs w.files) := by
  unfold settingsFor at h ⊢
  simp only [run, h, Pool.inOrder]
  cases checkFiles ((Settings.load w.settings).1.withArguments arguments).options {}
    (select ((Settings.load w.settings).1.withArguments arguments) globs w.files) with
  | error error => rfl
  | ok results => rfl

/-- There is one possible answer, and it is that of `run`. -/
theorem possible_iff :
    Possible arguments w answer ↔ answer = (run arguments w).map Outcome.visible := by
  constructor
  · intro h
    cases h with
    | invalidGlob herror =>
        rw [run_eq_error herror]
        rfl
    | answered hglobs hreaches hanswer =>
        rw [run_visible hglobs]
        exact ((Pool.sound_start _ _).reaches hreaches).answer_eq hanswer
  · intro h
    cases hglobs : excluded (settingsFor arguments w) with
    | error error =>
        rw [run_eq_error hglobs] at h
        rw [h]
        exact .invalidGlob hglobs
    | ok globs =>
        rcases Pool.exists_answer arguments (settingsFor arguments w).options
          (.start (select (settingsFor arguments w) globs w.files)) with
          ⟨p, answer', hreaches, hanswer⟩
        -- The answer that is reached is the one of `run`.
        have hsame := ((Pool.sound_start _ _).reaches hreaches).answer_eq hanswer
        rw [run_visible hglobs, ← hsame] at h
        rw [h]
        exact .answered hglobs hreaches hanswer

/-- A workspace with the same settings file and the same files, which are found in another order and
differ at most in what the check does not look into. -/
structure Varies (arguments : Arguments) (w w' : Workspace) : Prop where
  settings_eq : w'.settings = w.settings
  files_alike : ∃ files, List.Forall₂ (Alike (selects arguments w)) w.files files ∧
    files.Perm w'.files

theorem Varies.visible_eq (h : Varies arguments w w') (hpaths : DistinctPaths w.files) :
    (run arguments w').map Outcome.visible = (run arguments w).map Outcome.visible := by
  rcases h with ⟨hsettings, files, halike, hfound⟩
  have hsame : settingsFor arguments w' = settingsFor arguments w := by
    simp [settingsFor, hsettings]
  cases hglobs : excluded (settingsFor arguments w) with
  | error error => rw [run_eq_error hglobs, run_eq_error (hsame ▸ hglobs)]
  | ok globs =>
      rw [selects_eq hglobs] at halike
      rw [run_visible hglobs, run_visible (hsame ▸ hglobs), hsame, select_eq hpaths halike hfound]

/-- The entries of a JSON report are as many as the warnings. -/
theorem length_entries (checked : List Checked) :
    (checked.flatMap fun c => Report.json c.warnings c.file c.source).length =
      (checked.map (·.warnings.length)).sum := by
  simp [List.length_flatMap, Report.json]

/-- What a check tells of the files it selects: each is reported in its place. -/
theorem run_eq_ok {outcome : Outcome} (h : run arguments w = .ok outcome) :
    ∃ globs, excluded (settingsFor arguments w) = .ok globs ∧
      Pool.inOrder arguments (settingsFor arguments w).options
        (select (settingsFor arguments w) globs w.files) = .ok outcome.visible := by
  cases hglobs : excluded (settingsFor arguments w) with
  | error error =>
      rw [run_eq_error hglobs] at h
      cases h
  | ok globs =>
      refine ⟨globs, rfl, ?_⟩
      rw [← run_visible hglobs, h]
      rfl

end

/-- A check has one answer, in whatever order the files are found and the tasks of the files go on,
and whatever stands in files that are not selected. It reports the selected files in the order of
their paths; its count of warnings is the sum of those of the files that could be checked, and in
JSON the number of entries. -/
theorem run_any_order (arguments : Arguments) (w w' : Workspace) (hpaths : DistinctPaths w.files)
    (hvaries : Varies arguments w w') :
    (∀ answer, Possible arguments w' answer ↔
      answer = (run arguments w).map Outcome.visible) ∧
    ∀ outcome, run arguments w = .ok outcome →
      ∃ (files : List SourceFile) (checked : List Checked),
        files.Perm (w.files.filter (selects arguments w)) ∧
        (files.map (·.path)).Pairwise (· < ·) ∧
        checked = files.filterMap (checked? (settingsFor arguments w).options) ∧
        outcome.summary = ⟨files.length, (checked.map (·.warnings.length)).sum,
          arguments.failOnWarnings⟩ ∧
        outcome.report = report arguments.output outcome.summary checked ∧
        (arguments.output = .json →
          ∃ entries, outcome.report = (Json.array entries).pretty ++ "\n" ∧
            entries.length = outcome.summary.warnings) := by
  constructor
  · intro answer
    rw [possible_iff, hvaries.visible_eq hpaths]
  · intro outcome hrun
    rcases run_eq_ok hrun with ⟨globs, hglobs, hinOrder⟩
    rcases Pool.inOrder_eq_ok hinOrder with ⟨hsummary, hreport⟩
    refine ⟨select (settingsFor arguments w) globs w.files, _, ?_, ?_, rfl, hsummary, hreport, ?_⟩
    · rw [selects_eq hglobs]
      exact select_perm _ globs w.files
    · exact hpaths.select_increasing _ globs
    · intro hjson
      rw [hreport, hjson]
      refine ⟨_, rfl, ?_⟩
      rw [length_entries, hsummary]

/-- Two files are found in either order, and what stands in the text file does not matter. -/
theorem run_any_order_found_again :
    (run {} ⟨"/b", .missing,
      [⟨["notes.txt"], "notes.txt", none⟩, ⟨["src", "a.html"], "a.html", some "<p>".toUTF8⟩,
        ⟨["b.html"], "b.html", some "<br>".toUTF8⟩]⟩).map Outcome.visible =
    (run {} ⟨"/a", .missing,
      [⟨["b.html"], "b.html", some "<br>".toUTF8⟩, ⟨["notes.txt"], "notes.txt", some "x".toUTF8⟩,
        ⟨["src", "a.html"], "a.html", some "<p>".toUTF8⟩]⟩).map Outcome.visible := by
  have hvaries : Varies {}
      ⟨"/a", .missing, [⟨["b.html"], "b.html", some "<br>".toUTF8⟩,
        ⟨["notes.txt"], "notes.txt", some "x".toUTF8⟩,
        ⟨["src", "a.html"], "a.html", some "<p>".toUTF8⟩]⟩
      ⟨"/b", .missing, [⟨["notes.txt"], "notes.txt", none⟩,
        ⟨["src", "a.html"], "a.html", some "<p>".toUTF8⟩,
        ⟨["b.html"], "b.html", some "<br>".toUTF8⟩]⟩ := by
    refine ⟨rfl, [⟨["b.html"], "b.html", some "<br>".toUTF8⟩, ⟨["notes.txt"], "notes.txt", none⟩,
      ⟨["src", "a.html"], "a.html", some "<p>".toUTF8⟩], ?_, ?_⟩
    · refine .cons ⟨rfl, rfl, fun _ => rfl⟩ (.cons ⟨rfl, rfl, fun hselected => ?_⟩
        (.cons ⟨rfl, rfl, fun _ => rfl⟩ .nil))
      exact absurd hselected (by decide +kernel)
    · show ([_] ++ [_, _]).Perm ([_, _] ++ [_])
      exact List.perm_append_comm
  have hpaths : DistinctPaths [⟨["b.html"], "b.html", some "<br>".toUTF8⟩,
      ⟨["notes.txt"], "notes.txt", some "x".toUTF8⟩,
      ⟨["src", "a.html"], "a.html", some "<p>".toUTF8⟩] := by
    simp [DistinctPaths]
  exact ((run_any_order _ _ _ hpaths hvaries).1 _).1 (possible_iff.2 rfl)

end Check
end TemplateMarkup
