import TraversalQuery.Response.Collect
import TraversalQuery.Response.Input
import TraversalQuery.Response.Path

/-!
# Walking a query

A walk goes over the selected operation depth first and asks a resolver for every field it comes to,
an object before the fields inside it. There is no data behind it: what counts is the sequence of
visits, each with the definition of the field, its arguments, its path and the field around it. A
field is not visited before its arguments are read, and so not at all if their defaults never
settle.
-/

namespace TraversalQuery

/-- The field around a field. -/
structure ParentField where
  definition : OutputField
  path : ResponsePath
deriving Inhabited

/-- What a resolver learns about a field. The path of a field with a list type leads to the first
item of its list. -/
structure FieldVisit where
  parentType : SchemaType
  definition : OutputField
  output? : Option SchemaType
  responseKey : String
  path : ResponsePath
  parent? : Option ParentField
  arguments : Members
deriving Inhabited

namespace FieldVisit

/-- The path of the field around a field, or the root. -/
def parentPath (visit : FieldVisit) : ResponsePath :=
  match visit.parent? with
  | none => .root
  | some parent => parent.path

end FieldVisit

/-- What a resolver answers: an object, which is walked into, a value as it is, or nothing. -/
inductive Answer where
  | object
  | leaf (value : Json)
  | null
deriving Inhabited

/-- A resolver with a state of its own, which it keeps when it fails. -/
abbrev Resolver (σ ε : Type) := FieldVisit → ExceptT ε (StateM σ) Answer

/-- Why there is no response to a walk: the resolver fails; fields go on inside one another beyond
the depth of the document, which needs a fragment that spreads itself; or the arguments of a field
are never read, which needs a default that leads back to itself. -/
inductive WalkStop (ε : Type) where
  | refused (error : ε)
  | endless
  | unsettled
deriving Inhabited

/-- A part of a walk. -/
abbrev Walk (σ ε α : Type) := ExceptT (WalkStop ε) (StateM σ) α

namespace Selection

mutual

/-- How deep fields are inside one another in a selection, without entering spreads. -/
def depth : Selection → Nat
  | .field _ selections _ => depthOf selections + 1
  | .spread .. => 0
  | .inline _ _ selections _ _ => depthOf selections

/-- How deep fields are inside one another in selections, without entering spreads. -/
def depthOf : List Selection → Nat
  | [] => 0
  | selection :: rest =>
    if selection.depth ≤ depthOf rest then depthOf rest else selection.depth

end

end Selection

namespace QueryScope

variable {σ ε : Type}

/-- How the selections on an object are walked. -/
abbrev WalkObject (σ ε : Type) :=
  SchemaType → List Selection → ResponsePath → Option ParentField → Walk σ ε Members

/-- The value of a field that was resolved. -/
def answered (scope : QueryScope) (inner : WalkObject σ ε) (visit : FieldVisit)
    (fields : List SelectedField) : Answer → Walk σ ε (Option Json)
  | .null => return none
  | .leaf value => return some value
  | .object => do
    match visit.output? with
    | none => return none
    | some declared =>
      let members ← inner (scope.schema.runtimeType declared)
        (fields.flatMap (·.selections)) visit.path (some ⟨visit.definition, visit.path⟩)
      return some (.object members)

/-- A value of a field with a list type is put into a list if it is none. -/
def listed (isList : Bool) (value : Json) : Json :=
  if isList && !value.isArray then .array [value] else value

/-- The visit of the first field of a group. -/
def visit (scope : QueryScope) (object : SchemaType) (definition : OutputField) (key : String)
    (field : Field) (path : ResponsePath) (parent? : Option ParentField) : FieldVisit :=
  let fieldPath := path.child key
  { parentType := object
    definition := definition
    output? := scope.schema.get? definition.type.namedType
    responseKey := key
    path := if definition.type.isList then fieldPath.item 0 else fieldPath
    parent? := parent?
    arguments := Input.arguments scope.schema scope.variableValues definition.arguments field }

/-- Whether the defaults are ever read that the arguments of a field take. -/
def settles (scope : QueryScope) (definition : OutputField) (field : Field) : Bool :=
  Input.settle scope.schema scope.variableValues
    (Input.lackingArguments scope.schema scope.variableValues definition.arguments field)

/-- The value of a group of fields. The first of them is resolved; the selections of all of them
are walked. -/
def fieldValue (scope : QueryScope) (resolve : Resolver σ ε) (inner : WalkObject σ ε)
    (object : SchemaType) (path : ResponsePath) (parent? : Option ParentField) (key : String)
    (fields : List SelectedField) : Walk σ ε Json := do
  match fields.head? with
  | none => return .null
  | some first =>
    if first.field.name = "__typename" then return .string object.name
    match object.field? first.field.name with
    | none => return .null
    | some definition =>
      if scope.settles definition first.field then
        let visit := scope.visit object definition key first.field path parent?
        let answer ← ExceptT.adapt WalkStop.refused (resolve visit)
        match ← scope.answered inner visit fields answer with
        | none => return .null
        | some value => return listed definition.type.isList value
      else throw .unsettled

/-- The values of groups of fields, one after another. -/
def groupValues (value : String → List SelectedField → Walk σ ε Json) :
    FieldGroups → Members → Walk σ ε Members
  | [], members => return members
  | (key, fields) :: rest, members => do
    let found ← value key fields
    groupValues value rest (Members.insert key found members)

/-- The values of the fields that selections ask of an object, with at most `depth` fields inside
one another. -/
def walkObject (scope : QueryScope) (resolve : Resolver σ ε) : Nat → WalkObject σ ε
  | 0, _, _, _, _ => throw .endless
  | depth + 1, object, selections, path, parent? =>
    groupValues (scope.fieldValue resolve (scope.walkObject resolve depth) object path parent?)
      (scope.collect object selections) []

/-- No field stands inside more others than this, as each fragment is entered once on the way. -/
def depthLimit (scope : QueryScope) (selections : List Selection) : Nat :=
  Selection.depthOf selections + scope.fragments.foldr
    (fun fragment total => Selection.depthOf fragment.selections + total) 0 + 1

/-- The response to selections on the root type. -/
def respond (scope : QueryScope) (resolve : Resolver σ ε) (root : SchemaType)
    (selections : List Selection) : Walk σ ε Json := do
  let members ←
    scope.walkObject resolve (scope.depthLimit selections) root selections .root none
  return .object members

end QueryScope

end TraversalQuery
