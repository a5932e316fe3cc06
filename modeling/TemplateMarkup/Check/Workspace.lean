import TemplateMarkup.Check.Settings

/-!
# Workspaces

A workspace is what a check sees of a file system: the settings file and the files below one path.
`Workspace.ofTree` cuts it out of a tree of files.
-/

namespace TemplateMarkup

/-- A file of a workspace. -/
structure SourceFile where
  /-- The path from the workspace, by component; empty if the workspace is the file itself. -/
  path : List String
  name : String
  /-- The bytes of the file; `none` if it cannot be read. -/
  content : Option ByteArray

structure Workspace where
  /-- The path of the workspace, as it is written in messages. -/
  path : String
  settings : Settings.File
  /-- All files below the path, in any order. -/
  files : List SourceFile

namespace Workspace

/-- One path behind another. -/
def joinPath (base path : String) : String :=
  if path.toList.head? = some '/' then path
  else if base.toList.getLast? = some '/' then base ++ path
  else base ++ "/" ++ path

end Workspace

/-- A tree of files, each with the components of its path from the top. -/
structure FileTree where
  files : List (List String × ByteArray)

namespace FileTree

/-- What a path leads to. -/
inductive Entry where
  | directory
  | file (content : ByteArray)

/-- The entry at a path; every path that leads to a file passes through directories. -/
def entry? (t : FileTree) (path : List String) : Option Entry :=
  match t.files.find? (·.1 == path) with
  | some (_, content) => some (.file content)
  | none => if t.files.any (path.isPrefixOf ·.1) then some .directory else none

def isDirectory (t : FileTree) (path : List String) : Bool :=
  match t.entry? path with
  | some .directory => true
  | _ => false

/-- Follows components from a directory: an empty one and a point stay there, two points go up. -/
def resolve? (t : FileTree) (base : List String) : List String → Option (List String)
  | [] => some base
  | component :: components =>
      if t.isDirectory base then
        if component = "" ∨ component = "." then t.resolve? base components
        else if component = ".." then t.resolve? base.dropLast components
        else
          let path := base ++ [component]
          if (t.entry? path).isSome then t.resolve? path components else none
      else none

/-- The components of a path from the top. -/
def components (path : String) : List String :=
  (Text.splitAll '/' path.toList).map String.ofList

/-- The entry that a path from the top leads to, and where that is. -/
def locate? (t : FileTree) (path : String) : Option (List String × Entry) := do
  let place ← t.resolve? [] (components path)
  let entry ← t.entry? place
  return (place, entry)

/-- The files below a directory. -/
def below (t : FileTree) (place : List String) : List SourceFile :=
  t.files.filterMap fun (path, content) =>
    if place.isPrefixOf path then
      some
        { path := path.drop place.length
          name := path.getLast?.getD ""
          content := some content }
    else none

end FileTree

namespace Workspace

/-- What stands at the place of the settings file. -/
def settingsIn (t : FileTree) (path : String) : Settings.File :=
  match t.locate? (joinPath path Settings.fileName) with
  | none => .missing
  | some (_, .directory) => .unreadable
  | some (_, .file content) => .bytes content

/-- The workspace at `path`, seen from the directory `current`. A path that leads nowhere has no
files, and one that leads to a file has that file alone. -/
def ofTree (t : FileTree) (current path : String) : Workspace :=
  let path := joinPath current path
  { path
    settings := settingsIn t path
    files := match t.locate? path with
      | none => []
      | some (place, .directory) => t.below place
      | some (place, .file content) =>
          [{ path := [], name := place.getLast?.getD "", content := some content }] }

end Workspace
end TemplateMarkup
