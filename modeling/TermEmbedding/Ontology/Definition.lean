import TermEmbedding.Json.Writer
import TermEmbedding.Ontology.Context

/-!
# Contexts as data

There are two forms. The parameters of a context are written by hand: an entry of the list of types
has one member that tells its kind, and names of primitive terms must not be repeated. The stored
form is written by this library: every type has all of its members, and it is trusted in what it
says about names.

Generating a context reads the parameters, checks them and writes the stored form, which is what is
kept in files; loading reads it back. In both forms an integer that stands for a type may be written
as a string, and where two of them name one type the later one counts.
-/

namespace TermEmbedding

instance : MonadLift (Except DataFault) (Except ContextError) := ⟨Except.mapError .fault⟩

/-- The member of an optional compressed dimension. -/
def compressedMember (members : Json.Members) : Except DataFault (Option Int) :=
  match Json.optional? members "compressed_dim" with
  | none => return none
  | some value => return some (← value.toInteger)

/-- Reads the names of primitive terms, type by type. Each list of names has to pass a check. -/
def readNames (check : TypeId → List Json → Except ContextError Unit) (members : Json.Members) :
    Except ContextError (Table TypeId (List TermName)) :=
  members.foldlM (fun table (key, value) ↦ do
    let typeId ← (Json.string key).toInteger
    let names ← value.toItems
    check typeId names
    return Table.insert table typeId (names.map Json.asName)) []

/-- Reads the member with the names of primitive terms, which may be missing. -/
def readPrimitives (check : TypeId → List Json → Except ContextError Unit)
    (members : Json.Members) : Except ContextError (Table TypeId (List TermName)) := do
  match Json.Members.find? members "primitives" with
  | none => return []
  | some value => readNames check (← value.toMembers)

/-! ## Parameters -/

/-- Reads an entry of the list of types in parameters. -/
def Declaration.ofParameters (index : Nat) (entry : Json) : Except ContextError Declaration := do
  match entry with
  | .object members =>
    match Json.Members.find? members "vector" with
    | some dimension => return .vector (← dimension.toInteger)
    | none =>
      match Json.Members.find? members "function" with
      | none => throw (.entryUnknown index)
      | some value =>
        match ← value.toItems with
        | [argument, result] =>
          return .function (← argument.toInteger) (← result.toInteger)
            (← compressedMember members)
        | _ => throw (.fault .value)
  | other => throw (.entryNoObject index other)

def refuseRepetition (typeId : TypeId) (names : List Json) : Except ContextError Unit := do
  if ← Json.hasRepetition names then throw (.repeatedNames typeId)

def Context.ofParameters (parameters : Json) : Except ContextError Context := do
  match parameters with
  | .object members =>
    match Json.Members.find? members "types" with
    | none => throw .noTypeList
    | some list =>
      let entries ← list.toItems
      let declarations ← entries.zipIdx.mapM fun (entry, i) ↦ Declaration.ofParameters i entry
      let names ← readPrimitives refuseRepetition members
      Context.ofDeclarations declarations names
  | _ => throw .noTypeList

/-! ## The stored form -/

def Declaration.toData : Declaration → Json
  | .vector d =>
    .object [(Json.name "kind", .string (Json.name "vector")),
      (Json.name "dim", .integer d)]
  | .function argument result compressed =>
    .object [(Json.name "kind", .string (Json.name "function")),
      (Json.name "arg", .integer argument),
      (Json.name "ret", .integer result),
      (Json.name "compressed_dim", match compressed with
        | none => .null
        | some c => .integer c)]

def Context.toData (c : Context) : Json :=
  .object [
    (Json.name "types", .array (c.kinds.map (·.declaration.toData))),
    (Json.name "primitives", .object (c.primitives.map fun (typeId, names) ↦
      (Text.codePoints (numeral typeId), .array (names.map .string))))]

def Declaration.ofData (entry : Json) : Except ContextError Declaration := do
  let kind ← entry.member "kind"
  if kind.text? = some "vector".toList then
    return .vector (← (← entry.member "dim").toInteger)
  else if kind.text? = some "function".toList then
    let argument ← (← entry.member "arg").toInteger
    let result ← (← entry.member "ret").toInteger
    let compressed ← match entry with
      | .object members => compressedMember members
      | _ => pure none
    return .function argument result compressed
  else throw (.unknownKind kind)

/-- Reads the declarations and names of a stored context. -/
def readStored (data : Json) :
    Except ContextError (List Declaration × Table TypeId (List TermName)) := do
  let entries ← (← data.member "types").toItems
  let declarations ← entries.mapM Declaration.ofData
  let names ← match data with
    | .object members => readPrimitives (fun _ _ ↦ return) members
    | _ => pure []
  return (declarations, names)

def Context.ofData (data : Json) : Except ContextError Context := do
  let (declarations, names) ← ContextError.during .interpreting (readStored data)
  Context.ofDeclarations declarations names

/-! ## Files -/

/-- The contents of a file with the stored form of a context. -/
def Context.toBytes (c : Context) : Bytes := Text.utf8 c.toData.write

/-- The stored form of the context that a file with parameters describes. -/
def Context.generate (parameters : Bytes) : Except ContextError Bytes :=
  ContextError.during .generating do
    let context ← Context.ofParameters (← Json.ofBytes parameters)
    return context.toBytes

def Context.load (contents : Bytes) : Except ContextError Context :=
  ContextError.during .loading do
    Context.ofData (← Json.ofBytes contents)

end TermEmbedding
