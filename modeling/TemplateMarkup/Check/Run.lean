import TemplateMarkup.Check.Block
import TemplateMarkup.Check.Glob.Covers
import TemplateMarkup.Check.Glob.Parse
import TemplateMarkup.Check.Workspace
import TemplateMarkup.Template.Assembly
import TemplateMarkup.Template.Json

/-!
# Checking a workspace

`Check.run` selects the files of a workspace, reads each of them as a template and writes one
report. The files are reported in the order of their paths, component by component, whatever order
they are found in.
-/

namespace TemplateMarkup
namespace Check

/-- Why a check gives no report. -/
inductive Failure where
  | invalidGlob (error : Glob.Error)
  | brokenPath (error : MemberPath.Error)
  deriving DecidableEq, Repr

/-- What a check tells besides its report. -/
inductive Notice where
  | settingsRejected (path : String)
  | unreadable (path : String)
  deriving DecidableEq, Repr

def Notice.text : Notice → String
  | settingsRejected path => "Warning: Failed to parse " ++ path
  | unreadable path => "Failed to read " ++ path

/-! ## Selecting files -/

/-- The paths that are always left out. -/
def defaultExclude : List String :=
  ["**/node_modules/**", "**/dist/**"]

/-- The globs of the paths to leave out. -/
def excluded (settings : Settings) : Except Glob.Error (List (List Glob.Token)) :=
  (settings.exclude ++ defaultExclude).mapM Glob.parse

/-- The path of a file from its workspace. -/
def relativePath (f : SourceFile) : String :=
  "/".intercalate f.path

/-- Whether the name of a file ends in one of the extensions. -/
def hasExtension (settings : Settings) (f : SourceFile) : Bool :=
  settings.extensions.any fun extension => extension.toList.isSuffixOf f.name.toList

def isSelected (settings : Settings) (globs : List (List Glob.Token)) (f : SourceFile) : Bool :=
  hasExtension settings f && !globs.any (Glob.covers · (relativePath f))

/-- Whether one text comes before another in the order of characters. -/
def textBefore : List Char → List Char → Bool
  | _, [] => false
  | [], _ :: _ => true
  | c :: cs, d :: ds => if c = d then textBefore cs ds else c < d

/-- Whether one path comes before another, component by component, or is the same. -/
def pathInOrder : List String → List String → Bool
  | [], _ => true
  | _ :: _, [] => false
  | a :: p, b :: q => if a = b then pathInOrder p q else textBefore a.toList b.toList

/-- The files to check, in the order of their paths. -/
def select (settings : Settings) (globs : List (List Glob.Token)) (files : List SourceFile) :
    List SourceFile :=
  (files.filter (isSelected settings globs)).mergeSort fun f g => pathInOrder f.path g.path

/-! ## Checking one file -/

/-- A file that has been checked. -/
structure Checked where
  file : String
  source : String
  template : Template
  warnings : List Warning
  deriving DecidableEq, Repr

/-- Whether a file is a component file, of which only the template block is checked. -/
def isComponent (name : String) : Bool :=
  ".vue".toList.isSuffixOf name.toList && name != ".vue"

/-- The part of a source to check, and its offset; `none` for a component file without a template
block. -/
def body? (name source : String) : Option (Nat × String) :=
  if isComponent name then
    match Block.templateBody? source with
    | some span => (span.slice? source).map (span.start, ·)
    | none => none
  else some (0, source)

/-- Checks a source. The spans of warnings are those in the whole source. -/
def checkSource (options : Options) (file name source : String) :
    Except MemberPath.Error (Option Checked) :=
  match body? name source with
  | none => .ok none
  | some (offset, body) =>
      match parse options body with
      | .error error => .error error
      | .ok parsed =>
          .ok (some
            { file
              source
              template := parsed.template
              warnings := parsed.warnings.map (·.shift offset) })

/-- The results of checking files: those that could be checked, and those that could not be
read. -/
structure Results where
  checked : List Checked := []
  unreadable : List SourceFile := []

/-- Checks files one after the other, behind `results`, which are newest first. -/
def checkFiles (options : Options) (results : Results) :
    List SourceFile → Except MemberPath.Error Results
  | [] =>
      .ok { checked := results.checked.reverse, unreadable := results.unreadable.reverse }
  | f :: files =>
      match f.content.bind String.fromUTF8? with
      | none => checkFiles options { results with unreadable := f :: results.unreadable } files
      | some source =>
          match checkSource options (relativePath f) f.name source with
          | .error error => .error error
          | .ok none => checkFiles options results files
          | .ok (some checked) =>
              checkFiles options { results with checked := checked :: results.checked } files

/-! ## The whole check -/

/-- What a check gives: its counts, its report and its notices. -/
structure Outcome where
  summary : Summary
  report : String
  notices : List Notice
  deriving DecidableEq, Repr

/-- The report on all files in a format. -/
def report (format : ReportFormat) (summary : Summary) (checked : List Checked) : String :=
  match format with
  | .json =>
      (Json.array (checked.flatMap fun c => Report.json c.warnings c.file c.source)).pretty ++ "\n"
  | .ast =>
      (Json.array (checked.map fun c =>
        .object [("filename", .string c.file), ("template", c.template.toJson)])).pretty ++ "\n"
  | format =>
      String.join (checked.map fun c => Report.text format c.warnings c.file c.source) ++
        summary.text ++ "\n"

/-- The path of a file as it is written in messages. -/
def shownPath (w : Workspace) (f : SourceFile) : String :=
  if f.path = [] then w.path else Workspace.joinPath w.path (relativePath f)

/-- Checks a workspace. -/
def run (arguments : Arguments) (w : Workspace) : Except Failure Outcome :=
  let (settings, rejected) := Settings.load w.settings
  let settings := settings.withArguments arguments
  match excluded settings with
  | .error error => .error (.invalidGlob error)
  | .ok globs =>
      let files := select settings globs w.files
      match checkFiles settings.options {} files with
      | .error error => .error (.brokenPath error)
      | .ok results =>
          let summary : Summary :=
            { files := files.length
              warnings := (results.checked.flatMap (·.warnings)).length
              failOnWarnings := arguments.failOnWarnings }
          let rejections :=
            if rejected then
              [Notice.settingsRejected (Workspace.joinPath w.path Settings.fileName)]
            else []
          .ok
            { summary
              report := report arguments.output summary results.checked
              notices :=
                rejections ++ results.unreadable.map fun f => .unreadable (shownPath w f) }

/-- The lines that tell how long the parts of a check on `files` files took; each duration comes
with a space before it. -/
def timingLines (files : Nat) (scan parse total : String) : List String :=
  ["=== template-check timings ===",
    "file scan:" ++ scan ++ " (" ++ Nat.repr files ++ " files)",
    "parse:" ++ parse,
    "total:" ++ total]

end Check
end TemplateMarkup
