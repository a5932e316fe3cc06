import TemplateMarkup.Check.Run

/-!
# The command line

Reads the arguments, looks at the file system, runs the check and prints what it gives. The exit
code is zero unless the check fails.
-/

namespace TemplateMarkup
namespace CommandLine

/-- What is told about arguments that are not accepted. -/
def explain : Arguments.Problem → String
  | .unknown word => "error: unexpected argument '" ++ word ++ "' found"
  | .invalidValue name => "error: a value is required for '--" ++ name ++ "'"
  | .invalidDelimiters value => "error: expected OPEN,CLOSE, got '" ++ value ++ "'"
  | .repeated name => "error: the argument '--" ++ name ++ "' cannot be used multiple times"
  | .unexpectedValue name => "error: unexpected value for '--" ++ name ++ "'"
  | .help =>
      "Usage: template-check [--workspace DIR] [--output human|machine|json|ast] " ++
      "[--ignore GLOB]... [--preserve-whitespace] [--delimiters OPEN,CLOSE] " ++
      "[--fail-on-warnings] [--timings]"
  | .version => "template-check"

/-- What is told about a check that gives no report. -/
def explainFailure : Check.Failure → String
  | .invalidGlob _ => "error: invalid glob pattern"
  | .brokenPath _ => "error: a bound path splits a character"

/-- The bytes of a file, if it can be read. -/
def contentAt (path : String) : IO (Option ByteArray) := do
  try
    return some (← IO.FS.readBinFile path)
  catch _ => return none

/-- The files below a directory; links are not followed. -/
partial def filesBelow (directory : String) (path : List String) : IO (List SourceFile) := do
  let place := (← IO.currentDir) / directory
  let entries ← try place.readDir catch _ => pure #[]
  let mut files := #[]
  for entry in entries do
    let below := Workspace.joinPath directory entry.fileName
    let found : Option IO.FS.Metadata ←
      try some <$> entry.path.symlinkMetadata catch _ => pure none
    match found.map (·.type) with
    | some IO.FS.FileType.dir => files := files ++ (← filesBelow below (path ++ [entry.fileName]))
    | some IO.FS.FileType.file =>
        let content ← contentAt below
        files := files.push { path := path ++ [entry.fileName], name := entry.fileName, content }
    | _ => pure ()
  return files.toList

/-- What stands at the place of the settings file. -/
def settingsAt (directory : String) : IO Settings.File := do
  let path := Workspace.joinPath directory Settings.fileName
  let place := (← IO.currentDir) / path
  if ← place.pathExists then
    match ← contentAt path with
    | some content => return .bytes content
    | none => return .unreadable
  else return .missing

/-- The workspace at a path. -/
def workspaceAt (path : String) : IO Workspace := do
  let path := Workspace.joinPath (← IO.currentDir).toString path
  let place := (← IO.currentDir) / path
  let files ←
    if ← place.isDir then filesBelow path []
    else if ← place.pathExists then
      let content ← contentAt path
      pure [{ path := [], name := place.fileName.getD "", content }]
    else pure []
  return { path, settings := ← settingsAt path, files }

/-- A duration, with a space before it. -/
def duration (start stop : Nat) : String :=
  " " ++ Nat.repr ((stop - start) / 1000000) ++ "ms"

/-- Runs a check and gives the exit code. -/
def check (arguments : Arguments) : IO UInt32 := do
  let begun ← IO.monoNanosNow
  let workspace ← workspaceAt arguments.workspace
  let found ← IO.monoNanosNow
  match Check.run arguments workspace with
  | .error failure =>
      IO.eprintln (explainFailure failure)
      return 1
  | .ok outcome =>
      for notice in outcome.notices do
        IO.eprintln notice.text
      IO.print outcome.report
      let ended ← IO.monoNanosNow
      if arguments.timings then
        for line in Check.timingLines outcome.summary.files (duration begun found)
            (duration found ended) (duration begun ended) do
          IO.eprintln line
      return if outcome.summary.failed then 1 else 0

end CommandLine
end TemplateMarkup

open TemplateMarkup in
def main (words : List String) : IO UInt32 := do
  match Arguments.parse words with
  | .ok arguments => CommandLine.check arguments
  | .error .help =>
      IO.println (CommandLine.explain .help)
      return 0
  | .error .version =>
      IO.println (CommandLine.explain .version)
      return 0
  | .error problem =>
      IO.eprintln (CommandLine.explain problem)
      return 2
