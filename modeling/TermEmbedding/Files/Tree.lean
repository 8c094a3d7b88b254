import TermEmbedding.Files.Basic

/-!
# Files in memory

A tree of files is a list of directories and a table of files, both by the names that lead to them
from the root, and the directory from which relative paths start. A path is walked name by name: a
name can only be looked up in a directory, and a name or a path beyond the usual limits is refused
before it is looked up.
-/

namespace TermEmbedding

/-- Directories and files in memory. -/
structure Tree where
  directories : List (List Text)
  files : Table (List Text) Bytes
  /-- Where relative paths start. -/
  working : List Text
deriving Inhabited

namespace Tree

/-- The greatest length of a name, in bytes. -/
def nameLimit : Nat := 255

/-- The greatest length of a path, in bytes. -/
def pathLimit : Nat := 4095

def hasDirectory (t : Tree) (names : List Text) : Bool := names = [] || t.directories.contains names

/-- Walks from a directory along the parts of a path. The last one need not exist. -/
def walk (t : Tree) (here : List Text) : List Text → Except FileError (List Text)
  | [] => return here
  | part :: rest =>
    if t.hasDirectory here then
      if part = ['.', '.'] then t.walk here.dropLast rest
      else if nameLimit < (Text.utf8 part).length then throw .nameTooLong
      else t.walk (here ++ [part]) rest
    else if t.files.contains here then throw .noDirectory
    else throw .missing

/-- The names that a path leads along. -/
def resolve (t : Tree) (path : Path) : Except FileError (List Text) :=
  if pathLimit < (Text.utf8 path.text).length then throw .nameTooLong
  else t.walk (if path.root = [] then t.working else []) path.parts

def readFile (t : Tree) (path : Path) : Except FileError Bytes := do
  let names ← t.resolve path
  if t.hasDirectory names then throw .directory
  else match t.files.get? names with
    | some contents => return contents
    | none => throw .missing

def writeFile (t : Tree) (path : Path) (contents : Bytes) : Except FileError Tree := do
  let names ← t.resolve path
  if t.hasDirectory names then throw .directory
  else if t.hasDirectory names.dropLast then
    return { t with files := t.files.insert names contents }
  else throw .missing

def status (t : Tree) (path : Path) : FileStatus :=
  match t.resolve path with
  | .error .nameTooLong => .nameTooLong
  | .error _ => .absent
  | .ok names =>
    if t.hasDirectory names then .directory
    else if t.files.contains names then .file
    else .absent

end Tree

/-- Carries out a computation on files in memory. -/
def Interaction.runIn {α : Type} : Interaction α → Tree → α × Tree
  | done value, t => (value, t)
  | read path next, t => (next (t.readFile path)).runIn t
  | write path contents next, t =>
    match t.writeFile path contents with
    | .ok written => (next (.ok ())).runIn written
    | .error e => (next (.error e)).runIn t
  | status path next, t => (next (t.status path)).runIn t

end TermEmbedding
