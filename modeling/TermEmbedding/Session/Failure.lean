import TermEmbedding.Session.Basic
import TermEmbedding.Session.Command

/-!
# Failures of commands

A command that fails says under which name it failed, what kind of failure it was, and a message.
Not every failure has a kind: faults that no activity reports, degenerate arithmetic and numbers too
long to be read are not explained to the user but end the command as they are.
-/

namespace TermEmbedding

/-- The kinds of failures that are explained to the user. -/
inductive FailureKind where
  | parsing
  | evaluation
  | state
  | library
  | definition
  | files
  | unimplemented
deriving DecidableEq, Inhabited

def FailureKind.text : FailureKind → Text
  | parsing => "Expression Parsing Error".toList
  | evaluation => "Expression Evaluation Error".toList
  | state => "State Error".toList
  | library => "Context Library Error".toList
  | definition => "Context Format Error".toList
  | files => "IO Error".toList
  | unimplemented => "Unimplemented".toList

def ReadError.kind? : ReadError → Option FailureKind
  | numeralTooLong _ => none
  | _ => some .parsing

def ContextError.kind? : ContextError → Option FailureKind
  | fault _ => none
  | noType _ => some .evaluation
  | _ => some .definition

def Failure.kind? {K : Type} : Failure K → Option FailureKind
  | linear _ | noResult | badSeed => none
  | _ => some .evaluation

def SnapshotError.kind? : SnapshotError → Option FailureKind
  | noModel | malformed _ => some .definition
  | unreadable e => e.kind?
  | fault _ | unwritable => none

def ModelError.kind? : ModelError → Option FailureKind
  | failure f => f.kind?
  | snapshot e => e.kind?

/-- Why a command fails. -/
inductive CommandFailure where
  | expression (error : ReadError)
  | noContext
  | definition (error : ContextError)
  | model (error : ModelError)
  | type (fault : Context.TypeFault)
  | typeNumber (text : Text)
  | reading (path : Path) (error : FileError)
  | writing (path : Path) (error : FileError)
  | unimplemented (what : Text)
  /-- The outcome of a simulation has larger parts than numbers. -/
  | parts

namespace CommandFailure

/-- The kind of a failure, if it is explained to the user. -/
def kind? : CommandFailure → Option FailureKind
  | expression e => e.kind?
  | noContext => some .state
  | definition e => e.kind?
  | model e => e.kind?
  | type _ => some .evaluation
  | typeNumber _ => some .parsing
  | reading _ e | writing _ e => e.code?.map fun _ ↦ .files
  | unimplemented _ => some .unimplemented
  | parts => none

def message : CommandFailure → Text
  | expression e => e.message
  | noContext =>
    "This command may not be executed without a currently-loaded context".toList
  | definition e => e.message
  | model e => e.message
  | type fault => fault.message
  | typeNumber text => "Unable to parse type number from ".toList ++ text
  | reading path e => (if e.code?.isSome then "Read Error: ".toList else []) ++ e.message path
  | writing path e => (if e.code?.isSome then "Writing Error: ".toList else []) ++ e.message path
  | unimplemented what => what ++ " is not implemented".toList
  | parts => "an array has larger parts than numbers".toList

end CommandFailure

end TermEmbedding
