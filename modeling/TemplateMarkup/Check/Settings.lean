import TemplateMarkup.Check.Arguments
import TemplateMarkup.Json.Document
import TemplateMarkup.Template.Basic

/-!
# Settings

A workspace may have a settings file. It is a JSON object, whose unknown members are ignored and
whose known ones may stand only once, or a JSON list of the known members' values in their order.
A file that is neither is rejected as a whole.
-/

namespace TemplateMarkup

structure Settings where
  /-- The endings of the names of files to check. -/
  extensions : List String := [".html", ".vue"]
  /-- Globs of the paths to leave out. -/
  exclude : List String := []
  preserveWhitespace : Bool := false
  delimiters : Option Delimiters := none
  deriving DecidableEq, Repr

namespace Settings

/-- The name of the settings file. -/
def fileName : String := "template.config.json"

/-! ## Reading a settings file -/

open Document (Value)

def text? : Value → Option String
  | .string units => (Document.StringUnit.text? units).map String.ofList
  | _ => none

def texts? : Value → Option (List String)
  | .array items => items.mapM text?
  | _ => none

def bool? : Value → Option Bool
  | .bool b => some b
  | _ => none

def delimiters? : Value → Option (Option Delimiters)
  | .null => some none
  | .array [opening, closing] => do
      let opening ← text? opening
      let closing ← text? closing
      return some ⟨opening, closing⟩
  | _ => none

/-- The members a settings file may have. -/
inductive Member where
  | extensions
  | exclude
  | preserveWhitespace
  | delimiters
  deriving DecidableEq, Repr

def member? : String → Option Member
  | "extensions" => some .extensions
  | "exclude" => some .exclude
  | "preserveWhitespace" => some .preserveWhitespace
  | "delimiters" => some .delimiters
  | _ => none

/-- Sets one member. -/
def set? (s : Settings) (m : Member) (value : Value) : Option Settings :=
  match m with
  | .extensions => (texts? value).map ({ s with extensions := · })
  | .exclude => (texts? value).map ({ s with exclude := · })
  | .preserveWhitespace => (bool? value).map ({ s with preserveWhitespace := · })
  | .delimiters => (delimiters? value).map ({ s with delimiters := · })

/-- Sets the members of an object; `seen` are those set so far. -/
def setMembers? (s : Settings) (seen : List Member) :
    List (List Document.StringUnit × Value) → Option Settings
  | [] => some s
  | (name, value) :: members =>
      match Document.StringUnit.text? name with
      | none => none
      | some name =>
          match member? (String.ofList name) with
          | none => s.setMembers? seen members
          | some m =>
              if m ∈ seen then none
              else match s.set? m value with
                | none => none
                | some s => s.setMembers? (m :: seen) members

/-- Sets members in order, one for each value. -/
def setItems? (s : Settings) : List Member → List Value → Option Settings
  | _, [] => some s
  | [], _ :: _ => none
  | m :: members, value :: values =>
      match s.set? m value with
      | none => none
      | some s => s.setItems? members values

/-- Reads the text of a settings file; `none` if it is rejected. -/
def parse? (text : String) : Option Settings :=
  match Document.parse? text with
  | some (.object members) => setMembers? {} [] members
  | some (.array items) =>
      setItems? {} [.extensions, .exclude, .preserveWhitespace, .delimiters] items
  | _ => none

/-- What stands at the place of the settings file: nothing, bytes, or something that cannot be
read. -/
inductive File where
  | missing
  | unreadable
  | bytes (content : ByteArray)

/-- The settings of a workspace, and whether its settings file was rejected; then the defaults
hold. -/
def load : File → Settings × Bool
  | .missing => ({}, false)
  | .unreadable => ({}, true)
  | .bytes content =>
      match (String.fromUTF8? content).bind parse? with
      | some settings => (settings, false)
      | none => ({}, true)

/-! ## Settings and arguments -/

/-- What the arguments say comes on top of the settings. -/
def withArguments (s : Settings) (a : Arguments) : Settings :=
  { s with
    exclude := s.exclude ++ a.ignore
    preserveWhitespace := s.preserveWhitespace || a.preserveWhitespace
    delimiters := match a.delimiters with
      | some pair => some pair
      | none => s.delimiters }

/-- How templates are read under these settings. -/
def options (s : Settings) : Options :=
  { preserveWhitespace := s.preserveWhitespace, delimiters := s.delimiters }

end Settings
end TemplateMarkup
