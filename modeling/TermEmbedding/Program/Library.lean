import TermEmbedding.Files.Basic
import TermEmbedding.Text.Numeral

/-!
# Libraries of contexts

A library says how contexts are defined. There is one, and it is part of the program; but the user
names the library that is wanted, by its dotted name or by the path of a file, and may name another
one. A file can be no library of this program, a dotted name may belong to something that defines no
contexts, and most names belong to nothing.
-/

namespace TermEmbedding

/-- Why there is no library under a name. -/
inductive LibraryError where
  | noFile (path : Path)
  | noModule (path : Path)
  /-- The name belongs to nothing, as can be told from its beginning. -/
  | unknown (target beginning : Text)
  /-- The name belongs to something that defines no contexts. -/
  | noDefinitions (name : Text)
  /-- The name begins with a dot, so it says where to look from somewhere else. -/
  | relative (target : Text)
  /-- The name is a path that cannot be looked up. -/
  | unsearchable (path : Path)
deriving DecidableEq, Inhabited

namespace LibraryError

/-- What is said of a name that belongs to nothing. -/
def unknownComplaint (target : Text) : Text :=
  "Error loading context definition library ".toList ++ target

/-- What is said of a name that belongs to something else. -/
def noDefinitionsComplaint (name : Text) : Text :=
  "Error locating context definition library symbols in ".toList ++ name

def message : LibraryError → Text
  | noFile path => "No context definition file at ".toList ++ path.text
  | noModule path => "Cannot load a module from ".toList ++ path.text
  | unknown target beginning =>
    unknownComplaint target ++ ": No module named ".toList ++ beginning.quoted
  | noDefinitions name => noDefinitionsComplaint name ++ ": it defines no contexts".toList
  | relative target => "the name ".toList ++ target.quoted ++ " is relative".toList
  | unsearchable path => FileError.message path .nameTooLong

end LibraryError

namespace Library

/-- The name of the library that is part of the program. -/
def bundledName : Text := "fetish_repl.contexts.linear".toList

/-- What the names of all parts of the program begin with. -/
def programPrefix : Text := "fetish_repl.".toList

/-- The other parts of the program. They can be named, but contexts are defined in none of them. -/
def partNames : List Text :=
  ["__init__", "contexts.__init__", "terms", "bindings", "expression", "parsers", "errors",
    "ontology", "model", "evaluator", "simulate", "state", "commands", "loading",
    "cli"].map (·.toList)

/-- Names that belong to something outside the program. -/
def otherNames : List Text :=
  ["json", "os", "sys", "math", "re", "io", "time", "random", "string", "types", "typing",
    "collections", "logging", "statistics", "decimal", "fractions", "datetime", "pathlib",
    "argparse", "functools", "itertools", "dataclasses", "enum", "copy", "csv", "abc", "ast",
    "contextlib", "importlib", "importlib.util", "inspect", "operator", "shutil", "subprocess",
    "tempfile", "textwrap", "threading", "traceback", "unittest", "warnings", "struct", "pickle",
    "hashlib", "bisect", "array", "codecs", "collections.abc", "json.decoder", "json.encoder",
    "lark", "numpy", "numpy.linalg", "numpy.random", "asyncio", "base64", "builtins", "calendar",
    "cmath", "concurrent", "concurrent.futures", "configparser", "ctypes", "difflib", "email",
    "errno", "fnmatch", "gc", "getpass", "glob", "gzip", "heapq", "html", "http", "keyword",
    "lark.exceptions", "locale", "marshal", "multiprocessing", "numbers", "pkgutil", "platform",
    "posixpath", "pprint", "queue", "secrets", "select", "shlex", "signal", "site", "socket",
    "sqlite3", "stat", "symtable", "timeit", "token", "tokenize", "unicodedata", "urllib",
    "urllib.parse", "urllib.request", "uuid", "weakref", "xml", "zipfile", "zlib"].map (·.toList)

/-- Names under which something outside the program is known beside its own. -/
def otherAliases : Table Text Text := [("os.path".toList, "posixpath".toList)]

/-- Whether a dotted name leads to the library that is part of the program. -/
def leadsToBundled (name : Text) : Bool := (name ++ ['.']).isPrefixOf bundledName

/-- What a dotted name belongs to, if it is something that defines no contexts. -/
def withoutDefinitions? (name : Text) : Option Text :=
  if leadsToBundled name || partNames.any fun part ↦ name = programPrefix ++ part then some name
  else if otherNames.contains name then some name
  else otherAliases.get? name

/-- The shortest beginning of a dotted name that belongs to nothing. -/
def unknownBeginning (target : Text) : Text :=
  let pieces := Text.pieces '.' target
  let beginnings := (List.range pieces.length).map fun n ↦ Text.join ['.'] (pieces.take (n + 1))
  (beginnings.find? fun name ↦ name ≠ bundledName && (withoutDefinitions? name).isNone).getD target

def fileSuffix : Text := ".py".toList

/-- The name of the library that a dotted name belongs to. -/
def ofName (target : Text) : Except LibraryError Text :=
  if target = bundledName then return target
  else if target.head? = some '.' then throw (.relative target)
  else match withoutDefinitions? target with
    | some name => throw (.noDefinitions name)
    | none => throw (.unknown target (unknownBeginning target))

/-- The name of the library that the user asks for. -/
def find (environment : Environment) (target : Text) : Interaction (Except LibraryError Text) := do
  let path := Path.expand environment target
  match ← Interaction.statusOf path with
  | .file => return .error (.noModule path)
  | .directory => return .error (.noFile path)
  | .absent =>
    if path.suffix = fileSuffix then return .error (.noFile path) else return ofName target
  | .nameTooLong => return .error (.unsearchable path)

end Library

end TermEmbedding
