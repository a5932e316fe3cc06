import TemplateMarkup.Text.Basic

/-!
# Roles of attributes

The name of an attribute tells what it does: `:name` and `v-bind:name` bind a value, `@event` and
`v-on:event` handle an event, another `v-name` is a custom directive, and any other name is a
literal attribute. Modifiers follow a directive's name, each after a point.
-/

namespace TemplateMarkup

/-- What follows `lead` at the front of `name`. -/
def afterLead? (lead name : String) : Option String :=
  (Text.after? lead.toList name.toList).map String.ofList

inductive AttributeRole where
  | literal
  | bound (name : String) (modifiers : List String)
  | handler (event : String) (modifiers : List String)
  | custom (name : String) (argument : Option String) (modifiers : List String)
  deriving DecidableEq, Repr

namespace AttributeRole

/-- Whether a name is that of a directive. -/
def isDirective (name : String) : Bool :=
  (afterLead? "v-" name).isSome || (afterLead? "@" name).isSome || (afterLead? ":" name).isSome

/-- Splits the modifiers off a name; empty ones are dropped, and of equal ones the first is kept. -/
def splitModifiers (name : String) : String × List String :=
  match Text.breakOn? [ '.' ] name.toList with
  | none => (name, [])
  | some (bare, modifiers) =>
      (String.ofList bare,
        (((Text.splitAll '.' modifiers).filter (· ≠ [])).map String.ofList).eraseDups)

/-- The name and the argument of a custom directive; an empty argument is part of the name. -/
def splitArgument (name : String) : String × Option String :=
  match Text.breakOn? [ ':' ] name.toList with
  | some (directive, c :: argument) =>
      (String.ofList directive, some (String.ofList (c :: argument)))
  | _ => (name, none)

/-- The first of `leads` that `name` starts with is taken off. -/
def afterAny? (leads : List String) (name : String) : Option String :=
  leads.findSome? (afterLead? · name)

def ofName (rawName : String) : AttributeRole :=
  if isDirective rawName then
    let (name, modifiers) := splitModifiers rawName
    match afterAny? [":", "v-bind:"] name with
    | some name => bound name modifiers
    | none =>
        match afterAny? ["@", "v-on:"] name with
        | some event => handler event modifiers
        | none =>
            let bare := (afterAny? ["v-", "@", ":"] name).getD name
            let (directive, argument) := splitArgument bare
            custom directive argument modifiers
  else literal

end AttributeRole
end TemplateMarkup
