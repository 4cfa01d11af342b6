import TraversalQuery.Document.Grammar
import TraversalQuery.Schema.Basic
import TraversalQuery.Schema.Filter

/-!
# Compiling schemas

Definitions are taken one after another into a draft. Extensions wait until all types are known, so
it does not matter where they stand. A finished draft gets the built-in scalars and the root types
it names by convention, and is then checked: every name it uses has to be that of a type which fits
where it is used.
-/

namespace TraversalQuery

/-- Why sources are not a schema. -/
inductive SchemaError where
  | malformedSource (source : Nat) (error : SyntaxError)
  | executableDefinition (source : Nat)
  | duplicateType (name : String)
  | duplicateField (type field : String)
  | extendsUnknown (name : String)
  | extensionKindMismatch (name : String)
  | unknownType (site referenced : String)
  | notAnInterface (type interface : String)
  | notAnOutputType (site found : String)
  | notAnInputType (site found : String)
  | missingQueryRoot
deriving DecidableEq, Repr

/-- A schema error in words. -/
def SchemaError.message : SchemaError → String
  | .malformedSource source error => s!"syntax error in schema source {source}: {error.text}"
  | .executableDefinition source =>
    s!"schema source {source} contains an operation or fragment"
  | .duplicateType name => s!"type `{name}` is defined more than once"
  | .duplicateField type field => s!"field `{field}` is defined more than once in `{type}`"
  | .extendsUnknown name => s!"cannot extend `{name}`: no such type"
  | .extensionKindMismatch name => s!"cannot extend `{name}` with a definition of a different kind"
  | .unknownType site referenced => s!"type `{referenced}` used in `{site}` is not defined"
  | .notAnInterface type interface =>
    s!"`{type}` implements `{interface}`, which is not an interface"
  | .notAnOutputType site found => s!"`{site}` must have an output type, found `{found}`"
  | .notAnInputType site found => s!"`{site}` must have an input type, found `{found}`"
  | .missingQueryRoot => "schema has no query root type"

namespace InputValue

/-- The input value that a definition declares. -/
def ofDefinition (definition : InputDefinition) : InputValue :=
  ⟨definition.name, definition.type, definition.default?⟩

end InputValue

namespace OutputField

/-- The field that a definition declares. -/
def ofDefinition (definition : FieldDefinition) : OutputField :=
  ⟨definition.name, definition.arguments.map .ofDefinition, definition.type,
    definition.directives⟩

end OutputField

namespace TypeBody

/-- The body that the content of a definition declares. -/
def ofContent : TypeContent → TypeBody
  | .scalar => .scalar
  | .object interfaces fields => .object interfaces (fields.map .ofDefinition)
  | .interface interfaces fields => .interface interfaces (fields.map .ofDefinition)
  | .enum values => .enum values
  | .input fields => .input (fields.map .ofDefinition)

/-- A body followed by more of the same kind. -/
def append? : TypeBody → TypeBody → Option TypeBody
  | .scalar, .scalar => some .scalar
  | .object interfaces fields, .object moreInterfaces moreFields =>
    some (.object (interfaces ++ moreInterfaces) (fields ++ moreFields))
  | .interface interfaces fields, .interface moreInterfaces moreFields =>
    some (.interface (interfaces ++ moreInterfaces) (fields ++ moreFields))
  | .enum values, .enum more => some (.enum (values ++ more))
  | .input fields, .input more => some (.input (fields ++ more))
  | _, _ => none

end TypeBody

namespace SchemaType

/-- The type that a definition declares. -/
def ofDefinition (definition : TypeDefinition) : SchemaType :=
  ⟨definition.name, .ofContent definition.content, definition.directives⟩

/-- A type with what an extension of the same kind adds to it. -/
def extend? (type : SchemaType) (extension : TypeDefinition) : Option SchemaType :=
  (type.body.append? (.ofContent extension.content)).map fun body =>
    { type with body := body, directives := type.directives ++ extension.directives }

/-- A scalar without directives. -/
def scalar (name : String) : SchemaType := ⟨name, .scalar, []⟩

end SchemaType

/-- What the definitions so far declare: types, extensions still to be applied, and root types. -/
structure SchemaDraft where
  types : List SchemaType
  extensions : List TypeDefinition
  roots : Roots
deriving Inhabited

namespace SchemaDraft

/-- Nothing declared. -/
def empty : SchemaDraft := ⟨[], [], .empty⟩

/-- Whether a type of the name is declared or built in. -/
def declares (draft : SchemaDraft) (name : String) : Bool :=
  draft.types.any (·.name == name) || Schema.builtinScalars.contains name

/-- The draft with one more definition. Directive definitions mean nothing to a schema. -/
def add (draft : SchemaDraft) : Definition → Except SchemaError SchemaDraft
  | .schema schema =>
    let roots := schema.roots.foldl (fun roots (kind, name) => roots.set kind name) draft.roots
    .ok { draft with roots := roots }
  | .type type =>
    if type.isExtension then .ok { draft with extensions := draft.extensions ++ [type] }
    else if draft.declares type.name then .error (.duplicateType type.name)
    else .ok { draft with types := draft.types ++ [.ofDefinition type] }
  | _ => .ok draft

/-- The draft with all definitions of a source. -/
def addAll (source : Nat) : SchemaDraft → List Definition → Except SchemaError SchemaDraft
  | draft, [] => .ok draft
  | draft, definition :: rest => do
    if definition.isExecutable then throw (.executableDefinition source)
    addAll source (← draft.add definition) rest

/-- The draft with the definitions of all sources, of which the first has the number `source`. -/
def addSources : SchemaDraft → Nat → List String → Except SchemaError SchemaDraft
  | draft, _, [] => .ok draft
  | draft, source, text :: rest => do
    let document ← (Document.parse text).mapError (.malformedSource source)
    addSources (← draft.addAll source document.definitions) (source + 1) rest

/-- The types with the extended one in the place of the one it extends. -/
def replace (types : List SchemaType) (extended : SchemaType) : List SchemaType :=
  types.map fun type => if type.name = extended.name then extended else type

/-- The types with an extension applied. -/
def applyExtension (types : List SchemaType) (extension : TypeDefinition) :
    Except SchemaError (List SchemaType) :=
  match types.find? (·.name == extension.name) with
  | none => .error (.extendsUnknown extension.name)
  | some type =>
    match type.extend? extension with
    | none => .error (.extensionKindMismatch extension.name)
    | some extended => .ok (replace types extended)

/-- The roots with one more that is named by convention, if no other is named. -/
def completeRoot (types : List SchemaType) (roots : Roots) (kind : OperationKind) : Roots :=
  if (roots.get? kind).isNone && types.any (·.name == kind.conventionalRoot) then
    roots.set kind kind.conventionalRoot
  else roots

/-- The draft as a schema that is still to be checked. -/
def schema (draft : SchemaDraft) : Except SchemaError Schema := do
  let extended ← draft.extensions.foldlM applyExtension draft.types
  let types := Schema.builtinScalars.map .scalar ++ extended
  let roots := [.query, .mutation, .subscription].foldl (completeRoot types) draft.roots
  return ⟨types, roots⟩

end SchemaDraft

namespace Schema

/-- The kind of the type named inside a type reference, which has to exist. -/
def resolve (schema : Schema) (site : String) (type : TypeRef) : Except SchemaError TypeKind :=
  match schema.kindOf? type with
  | some kind => .ok kind
  | none => .error (.unknownType site type.namedType)

/-- Checks that arguments and input fields have input types. -/
def checkInputs (schema : Schema) (site : String → String) :
    List InputValue → Except SchemaError Unit
  | [] => .ok ()
  | input :: rest => do
    if (← schema.resolve (site input.name) input.type).isInput then schema.checkInputs site rest
    else throw (.notAnInputType (site input.name) input.type.text)

/-- Checks that output fields have names of their own and output types. -/
def checkFields (schema : Schema) (type : String) :
    List String → List OutputField → Except SchemaError Unit
  | _, [] => .ok ()
  | seen, field :: rest => do
    if seen.contains field.name then throw (.duplicateField type field.name)
    let site := s!"{type}.{field.name}"
    if (← schema.resolve site field.type) = .input then
      throw (.notAnOutputType site field.type.text)
    schema.checkInputs (fun argument => s!"{site}({argument})") field.arguments
    schema.checkFields type (field.name :: seen) rest

/-- Checks that the interfaces of a type are interfaces. -/
def checkInterfaces (schema : Schema) (type : String) : List String → Except SchemaError Unit
  | [] => .ok ()
  | interface :: rest =>
    match schema.get? interface with
    | none => .error (.unknownType type interface)
    | some found =>
      if found.kind = .interface then schema.checkInterfaces type rest
      else .error (.notAnInterface type interface)

/-- Checks one type. -/
def checkType (schema : Schema) (type : SchemaType) : Except SchemaError Unit := do
  schema.checkInterfaces type.name type.interfaces
  schema.checkFields type.name [] type.fields
  schema.checkInputs (fun input => s!"{type.name}.{input}") type.inputFields

/-- Checks types one after another. -/
def checkTypes (schema : Schema) : List SchemaType → Except SchemaError Unit
  | [] => .ok ()
  | type :: rest => do
    schema.checkType type
    schema.checkTypes rest

/-- Checks that the root types are objects. -/
def checkRoots (schema : Schema) : List String → Except SchemaError Unit
  | [] => .ok ()
  | root :: rest =>
    match schema.get? root with
    | none => .error (.unknownType "schema" root)
    | some found =>
      if found.kind = .object then schema.checkRoots rest
      else .error (.notAnOutputType "schema" found.name)

/-- Checks a schema. -/
def check (schema : Schema) : Except SchemaError Unit := do
  if (schema.rootType? .query).isNone then throw .missingQueryRoot
  schema.checkRoots schema.roots.names
  schema.checkTypes schema.types

/-- The schema of a finished draft. -/
def ofDraft (draft : SchemaDraft) : Except SchemaError Schema := do
  let schema ← draft.schema
  schema.check
  return schema

/-- The schema that sources define. -/
def compile (sources : List String) : Except SchemaError Schema := do
  ofDraft (← SchemaDraft.empty.addSources 0 sources)

/-- The schema that sources define together with the types of filters, which count as the source
before the first. -/
def compileWithFilters (sources : List String) : Except SchemaError Schema := do
  let filters ← SchemaDraft.empty.addAll 0 (Filter.types.map .type)
  ofDraft (← filters.addSources 1 sources)

end Schema

end TraversalQuery
