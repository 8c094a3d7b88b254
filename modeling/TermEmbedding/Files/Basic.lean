import TermEmbedding.Files.Path
import TermEmbedding.Text.Encoding

/-!
# Working with files

The program reads and writes whole files and asks what a path leads to. What comes of that is not
for the library to know: a computation that needs a file is a question together with what is done
with every possible answer. It can be carried out on the files of a machine or on a tree of files in
memory, and statements about it hold whatever the files contain.
-/

namespace TermEmbedding

/-- Why a file cannot be read or written. -/
inductive FileError where
  | missing
  | noDirectory
  | directory
  | nameTooLong
  | forbidden
  /-- The path holds a zero character. -/
  | zeroCharacter
deriving DecidableEq, Inhabited

namespace FileError

/-- The number and the description of an error, unless the path was never tried. -/
def code? : FileError → Option (Nat × Text)
  | missing => some (2, "No such file or directory".toList)
  | noDirectory => some (20, "Not a directory".toList)
  | directory => some (21, "Is a directory".toList)
  | nameTooLong => some (36, "File name too long".toList)
  | forbidden => some (13, "Permission denied".toList)
  | zeroCharacter => none

def message (path : Path) (e : FileError) : Text :=
  match e.code? with
  | some (number, description) =>
    "[Errno ".toList ++ Nat.toDigits 10 number ++ "] ".toList ++ description ++ ": ".toList ++
      path.text.quoted
  | none => "embedded null byte".toList

end FileError

/-- What a path leads to. -/
inductive FileStatus where
  | absent
  | file
  | directory
  /-- A name of the path is longer than a name can be. -/
  | nameTooLong
deriving DecidableEq, Inhabited

/-- A computation that may ask for files. -/
inductive Interaction (α : Type) where
  | done (value : α)
  | read (path : Path) (next : Except FileError Bytes → Interaction α)
  | write (path : Path) (contents : Bytes) (next : Except FileError Unit → Interaction α)
  | status (path : Path) (next : FileStatus → Interaction α)

namespace Interaction

variable {α β : Type}

def bind (i : Interaction α) (f : α → Interaction β) : Interaction β :=
  match i with
  | done value => f value
  | read path next => read path fun answer ↦ (next answer).bind f
  | write path contents next => write path contents fun answer ↦ (next answer).bind f
  | status path next => status path fun answer ↦ (next answer).bind f

instance : Monad Interaction where
  pure := done
  bind := bind

def readFile (path : Path) : Interaction (Except FileError Bytes) :=
  if path.isPassable then read path done else done (.error .zeroCharacter)

def writeFile (path : Path) (contents : Bytes) : Interaction (Except FileError Unit) :=
  if path.isPassable then write path contents done else done (.error .zeroCharacter)

def statusOf (path : Path) : Interaction FileStatus :=
  if path.isPassable then status path done else done .absent

end Interaction

end TermEmbedding
