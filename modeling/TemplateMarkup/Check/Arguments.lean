import TemplateMarkup.Check.Report
import TemplateMarkup.Expression.Interpolation

/-!
# Arguments

The arguments of a check, read from left to right. An option is written `--name value` or
`--name=value`; a value of its own is looked at when the next option or the end is reached, so that
an unknown argument behind it is reported first.
-/

namespace TemplateMarkup

structure Arguments where
  workspace : String := "."
  output : ReportFormat := .human
  ignore : List String := []
  preserveWhitespace : Bool := false
  delimiters : Option Delimiters := none
  failOnWarnings : Bool := false
  timings : Bool := false
  deriving DecidableEq, Repr

namespace Arguments

/-- Why arguments are not accepted, or not acted upon. -/
inductive Problem where
  | unknown (word : String)
  /-- An option without a value, or with a value that is not among those allowed. -/
  | invalidValue (name : String)
  | invalidDelimiters (value : String)
  /-- An option or flag that may be given only once. -/
  | repeated (name : String)
  /-- A flag with a value. -/
  | unexpectedValue (name : String)
  /-- The help text is asked for. -/
  | help
  /-- The version is asked for. -/
  | version
  deriving DecidableEq, Repr

/-- The options that take a value. -/
inductive Setting where
  | workspace
  | output
  | ignore
  | delimiters
  deriving DecidableEq, Repr

/-- The flags. -/
inductive Flag where
  | preserveWhitespace
  | failOnWarnings
  | timings
  deriving DecidableEq, Repr

namespace Setting

def name : Setting → String
  | workspace => "workspace"
  | output => "output"
  | ignore => "ignore"
  | delimiters => "delimiters"

def all : List Setting :=
  [workspace, output, ignore, delimiters]

end Setting

namespace Flag

def name : Flag → String
  | preserveWhitespace => "preserve-whitespace"
  | failOnWarnings => "fail-on-warnings"
  | timings => "timings"

def all : List Flag :=
  [preserveWhitespace, failOnWarnings, timings]

end Flag

/-- The formats by name. -/
def format? : String → Option ReportFormat
  | "human" => some .human
  | "machine" => some .machine
  | "json" => some .json
  | "ast" => some .ast
  | _ => none

/-- Delimiters are written with a comma between them, and neither may be empty. -/
def delimiters? (value : String) : Option Delimiters :=
  match Text.breakOn? [ ',' ] value.toList with
  | some (o :: opening, c :: closing) =>
      some ⟨String.ofList (o :: opening), String.ofList (c :: closing)⟩
  | _ => none

/-- The reading of arguments: what is read, the names given so far, and an option whose value is
still to be looked at, or to come. -/
structure Reader where
  arguments : Arguments := {}
  given : List String := []
  pending : Option (Setting × Option String) := none
  deriving DecidableEq, Repr

namespace Reader

/-- Gives a value to an option. -/
def set (r : Reader) (s : Setting) (value : String) : Except Problem Reader :=
  if s ≠ .ignore ∧ s.name ∈ r.given then .error (.repeated s.name)
  else
    let r := { r with given := s.name :: r.given }
    match s with
    | .workspace => .ok { r with arguments := { r.arguments with workspace := value } }
    | .ignore =>
        .ok { r with arguments := { r.arguments with ignore := r.arguments.ignore ++ [value] } }
    | .output =>
        match format? value with
        | some format => .ok { r with arguments := { r.arguments with output := format } }
        | none => .error (.invalidValue s.name)
    | .delimiters =>
        match delimiters? value with
        | some pair => .ok { r with arguments := { r.arguments with delimiters := some pair } }
        | none => .error (.invalidDelimiters value)

/-- Looks at the value that is pending. -/
def settle (r : Reader) : Except Problem Reader :=
  match r.pending with
  | none => .ok r
  | some (s, none) => .error (.invalidValue s.name)
  | some (s, some value) => { r with pending := none }.set s value

/-- Raises a flag. -/
def raise (r : Reader) (f : Flag) : Except Problem Reader :=
  if f.name ∈ r.given then .error (.repeated f.name)
  else
    let r := { r with given := f.name :: r.given }
    match f with
    | .preserveWhitespace =>
        .ok { r with arguments := { r.arguments with preserveWhitespace := true } }
    | .failOnWarnings => .ok { r with arguments := { r.arguments with failOnWarnings := true } }
    | .timings => .ok { r with arguments := { r.arguments with timings := true } }

/-- Reads `--name` or `--name=value`. -/
def readLong (r : Reader) (name : String) (value : Option String) : Except Problem Reader :=
  match Setting.all.find? (·.name == name), Flag.all.find? (·.name == name) with
  | some s, _ => do
      let r ← r.settle
      match value with
      | some value => r.set s value
      | none => .ok { r with pending := some (s, none) }
  | none, some f =>
      if value.isSome then .error (.unexpectedValue name)
      else do
        let r ← r.settle
        r.raise f
  | none, none =>
      if name = "help" ∨ name = "version" then
        if value.isSome then .error (.unexpectedValue name)
        else do
          let _ ← r.settle
          .error (if name = "help" then .help else .version)
      else .error (.unknown name)

/-- Reads a word that starts with one hyphen. -/
def readShort (r : Reader) (letters : List Char) : Except Problem Reader :=
  match letters with
  | 'h' :: _ => do
      let _ ← r.settle
      .error .help
  | 'V' :: _ => do
      let _ ← r.settle
      .error .version
  | _ => .error (.unknown (String.ofList letters))

/-- Reads a word that is no option. -/
def readPlain (r : Reader) (word : String) : Except Problem Reader :=
  match r.pending with
  | some (s, none) => .ok { r with pending := some (s, some word) }
  | _ => .error (.unknown word)

/-- Reads one word other than a lone `--`. -/
def readWord (r : Reader) (word : String) : Except Problem Reader :=
  match word.toList with
  | '-' :: '-' :: long =>
      match Text.breakOn? [ '=' ] long with
      | some (name, value) => r.readLong (String.ofList name) (some (String.ofList value))
      | none => r.readLong (String.ofList long) none
  | '-' :: c :: letters => r.readShort (c :: letters)
  | _ => r.readPlain word

/-- Reads words to the end. Nothing may follow a lone `--`. -/
def read (r : Reader) : List String → Except Problem Arguments
  | [] => r.settle.map (·.arguments)
  | word :: words =>
      if word = "--" then
        match words with
        | [] => r.settle.map (·.arguments)
        | extra :: _ => .error (.unknown extra)
      else do
        let r ← r.readWord word
        r.read words

end Reader

def parse (words : List String) : Except Problem Arguments :=
  ({} : Reader).read words

end Arguments
end TemplateMarkup
