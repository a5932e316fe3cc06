import TemplateMarkup.Json.Basic
import TemplateMarkup.LineIndex
import TemplateMarkup.Warning

/-!
# Reports

The warnings about one file, in four formats: `human` quotes the source line, `machine` has one
line a warning, `json` is a list of objects and `ast` is left to the template itself. Lines and
columns are counted from one.
-/

namespace TemplateMarkup

inductive ReportFormat where
  | human
  | machine
  | json
  | ast
  deriving DecidableEq, Repr

namespace Report

/-- A line, a column and an offset, the first two counted from one. -/
structure Position where
  line : Nat
  column : Nat
  offset : Nat
  deriving DecidableEq, Repr

/-- The position of an offset; one past the end of the text counts as the start. -/
def position (index : LineIndex) (offset : Nat) : Position :=
  let place := (index.lineCol? offset).getD ⟨0, 0⟩
  { line := place.line + 1, column := place.col + 1, offset }

/-- The source line of a position, with a mark under its column. -/
def snippet (lines : Array String) (p : Position) : String :=
  match lines[p.line - 1]? with
  | none => ""
  | some line =>
      let number := Nat.repr p.line
      "  " ++ number ++ " | " ++ line ++ "\n" ++
        "  " ++ "".pushn ' ' number.length ++ " | " ++ "".pushn ' ' (p.column - 1) ++ "^\n"

def humanEntry (index : LineIndex) (lines : Array String) (file : String) (w : Warning) : String :=
  let start := position index w.span.start
  file ++ ":" ++ Nat.repr start.line ++ ":" ++ Nat.repr start.column ++ "\n" ++
    "Warning: " ++ w.message ++ " (" ++ w.code ++ ")\n" ++ snippet lines start ++ "\n"

def machineEntry (index : LineIndex) (file : String) (w : Warning) : String :=
  let start := position index w.span.start
  let stop := position index w.span.stop
  "WARNING " ++ file ++ ":" ++ Nat.repr start.line ++ ":" ++ Nat.repr start.column ++ ":" ++
    Nat.repr stop.line ++ ":" ++ Nat.repr stop.column ++ " " ++ w.message ++ " (" ++ w.code ++
    ")\n"

def human (warnings : List Warning) (file source : String) : String :=
  let index := LineIndex.ofText source
  let lines := ((Text.lines source.toList).map String.ofList).toArray
  String.join (warnings.map (humanEntry index lines file))

def machine (warnings : List Warning) (file source : String) : String :=
  let index := LineIndex.ofText source
  String.join (warnings.map (machineEntry index file))

/-- The text about one file; the other formats are written for all files together. -/
def text (format : ReportFormat) (warnings : List Warning) (file source : String) : String :=
  match format with
  | .human => human warnings file source
  | .machine => machine warnings file source
  | .json => ""
  | .ast => ""

def Position.toJson (p : Position) : Json :=
  .object
    [("line", .number p.line), ("column", .number p.column), ("offset", .number p.offset)]

def jsonEntry (index : LineIndex) (file : String) (w : Warning) : Json :=
  .object
    [("filename", .string file),
      ("start", (position index w.span.start).toJson),
      ("end", (position index w.span.stop).toJson),
      ("message", .string w.message),
      ("code", .string w.code)]

/-- The entries about one file in a JSON report. -/
def json (warnings : List Warning) (file source : String) : List Json :=
  let index := LineIndex.ofText source
  warnings.map (jsonEntry index file)

end Report

/-- What a check has found. -/
structure Summary where
  files : Nat
  warnings : Nat
  failOnWarnings : Bool
  deriving DecidableEq, Repr

namespace Summary

def failed (s : Summary) : Bool :=
  s.failOnWarnings && decide (0 < s.warnings)

/-- A number and a noun, in the plural unless the number is one. -/
def count (n : Nat) (noun : String) : String :=
  Nat.repr n ++ " " ++ if n = 1 then noun else noun ++ "s"

def text (s : Summary) : String :=
  "====================================\n" ++
    "template-check found " ++ count s.warnings "warning" ++ " in " ++ count s.files "file"

end Summary
end TemplateMarkup
