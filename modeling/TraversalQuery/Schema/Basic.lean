import TraversalQuery.Document.Basic

/-!
# Schemas

A schema is a list of types and the root types of the three operation kinds. Types are looked up by
name; the first of a name counts, and a compiled schema has no two of one name.
-/

namespace TraversalQuery

/-- The kinds of type. -/
inductive TypeKind where
  | scalar
  | object
  | interface
  | enum
  | input
deriving DecidableEq, Inhabited, Repr

namespace TypeKind

/-- Objects and interfaces: fields are selected on them. -/
def isComposite : TypeKind → Bool
  | .object => true
  | .interface => true
  | _ => false

/-- Scalars and enums: nothing is selected on them. -/
def isLeaf : TypeKind → Bool
  | .scalar => true
  | .enum => true
  | _ => false

/-- Objects and interfaces are the kinds of type with fields. -/
theorem isComposite_iff {kind : TypeKind} :
    kind.isComposite = true ↔ kind = .object ∨ kind = .interface := by
  cases kind <;> simp [isComposite]

/-- Scalars and enums are the kinds of type with values. -/
theorem isLeaf_iff {kind : TypeKind} : kind.isLeaf = true ↔ kind = .scalar ∨ kind = .enum := by
  cases kind <;> simp [isLeaf]

/-- Types that arguments and variables can have. -/
def isInput : TypeKind → Bool
  | .scalar => true
  | .enum => true
  | .input => true
  | _ => false

end TypeKind

/-- An argument of a field, or a field of an input type. -/
structure InputValue where
  name : String
  type : TypeRef
  default? : Option Literal
deriving Inhabited

namespace InputValue

/-- Whether a value has to be given: `null` is forbidden and there is no default. -/
def isRequired (input : InputValue) : Bool :=
  input.type.isNonNull && input.default?.isNone

end InputValue

/-- A field that can be selected on a type. -/
structure OutputField where
  name : String
  arguments : List InputValue
  type : TypeRef
  directives : List Directive
deriving Inhabited

namespace OutputField

/-- The first argument of a name. -/
def argument? (field : OutputField) (name : String) : Option InputValue :=
  field.arguments.find? (·.name == name)

end OutputField

/-- What a type consists of. -/
inductive TypeBody where
  | scalar
  | object (interfaces : List String) (fields : List OutputField)
  | interface (interfaces : List String) (fields : List OutputField)
  | enum (values : List String)
  | input (fields : List InputValue)
deriving Inhabited

/-- A type of a schema. -/
structure SchemaType where
  name : String
  body : TypeBody
  directives : List Directive
deriving Inhabited

namespace SchemaType

/-- The kind of a type. -/
def kind (type : SchemaType) : TypeKind :=
  match type.body with
  | .scalar => .scalar
  | .object .. => .object
  | .interface .. => .interface
  | .enum _ => .enum
  | .input _ => .input

/-- The fields that can be selected on a type. -/
def fields (type : SchemaType) : List OutputField :=
  match type.body with
  | .object _ fields => fields
  | .interface _ fields => fields
  | _ => []

/-- The first field of a name that can be selected on a type. -/
def field? (type : SchemaType) (name : String) : Option OutputField :=
  type.fields.find? (·.name == name)

/-- The interfaces that a type says it implements. -/
def interfaces (type : SchemaType) : List String :=
  match type.body with
  | .object interfaces _ => interfaces
  | .interface interfaces _ => interfaces
  | _ => []

/-- The values of an enum. -/
def enumValues (type : SchemaType) : List String :=
  match type.body with
  | .enum values => values
  | _ => []

/-- The fields of an input type. -/
def inputFields (type : SchemaType) : List InputValue :=
  match type.body with
  | .input fields => fields
  | _ => []

/-- The first field of a name of an input type. -/
def inputField? (type : SchemaType) (name : String) : Option InputValue :=
  type.inputFields.find? (·.name == name)

/-- Whether values of an object type occur where `condition` is asked for: it is the type itself or
an interface the type implements. -/
def satisfies (object : SchemaType) (condition : String) : Bool :=
  condition == object.name || object.interfaces.contains condition

end SchemaType

/-- The names of the root types. -/
structure Roots where
  query? : Option String
  mutation? : Option String
  subscription? : Option String
deriving DecidableEq, Inhabited, Repr

namespace Roots

/-- No root types. -/
def empty : Roots := ⟨none, none, none⟩

/-- The root type of an operation kind. -/
def get? (roots : Roots) : OperationKind → Option String
  | .query => roots.query?
  | .mutation => roots.mutation?
  | .subscription => roots.subscription?

/-- The roots with the root type of an operation kind set. -/
def set (roots : Roots) (kind : OperationKind) (name : String) : Roots :=
  match kind with
  | .query => { roots with query? := some name }
  | .mutation => { roots with mutation? := some name }
  | .subscription => { roots with subscription? := some name }

/-- The names of all root types. -/
def names (roots : Roots) : List String :=
  roots.query?.toList ++ roots.mutation?.toList ++ roots.subscription?.toList

@[simp] theorem get?_set_self (roots : Roots) (kind : OperationKind) (name : String) :
    (roots.set kind name).get? kind = some name := by
  cases kind <;> rfl

/-- Setting the root of one kind leaves the others. -/
theorem get?_set_of_ne (roots : Roots) {kind other : OperationKind} (name : String)
    (different : other ≠ kind) : (roots.set kind name).get? other = roots.get? other := by
  cases kind <;> cases other <;> first | rfl | exact absurd rfl different

end Roots

/-- Types and root types. -/
structure Schema where
  types : List SchemaType
  roots : Roots
deriving Inhabited

namespace Schema

/-- The scalars that every schema has. -/
def builtinScalars : List String :=
  ["Int", "Float", "String", "Boolean", "ID"]

/-- The type of a name. -/
def get? (schema : Schema) (name : String) : Option SchemaType :=
  schema.types.find? (·.name == name)

/-- The type of a name has the name. -/
theorem name_of_get? {schema : Schema} {name : String} {type : SchemaType}
    (found : schema.get? name = some type) : type.name = name := by
  have named := List.find?_some found
  simpa using named

/-- The type of a name is one of the schema. -/
theorem mem_of_get? {schema : Schema} {name : String} {type : SchemaType}
    (found : schema.get? name = some type) : type ∈ schema.types :=
  List.mem_of_find?_eq_some found

/-- The names of types with their positions. -/
def positions (schema : Schema) : List (String × Nat) :=
  schema.types.zipIdx.map fun (type, position) => (type.name, position)

/-- The position of the type of each name, looked up in a list. Of several types of one name the
last counts, so the last stands first. -/
def index (schema : Schema) : List (String × Nat) :=
  schema.positions.reverse

/-- The positions of a name are those of the types that have it. -/
theorem mem_positions {schema : Schema} {name : String} {position : Nat} :
    (name, position) ∈ schema.positions ↔
      ∃ type, schema.types[position]? = some type ∧ type.name = name := by
  simp only [positions, List.mem_map, Prod.mk.injEq, Prod.exists, List.mem_zipIdx_iff_getElem?]
  constructor
  · rintro ⟨type, _, present, named, rfl⟩
    exact ⟨type, present, named⟩
  · rintro ⟨type, present, named⟩
    exact ⟨type, position, present, named, rfl⟩

section Index

variable {schema : Schema} (distinct : (schema.types.map (·.name)).Nodup)
include distinct

/-- Two positions of one name are the same where no two types have one name. -/
theorem position_unique {position other : Nat} {type type' : SchemaType}
    (present : schema.types[position]? = some type) (present' : schema.types[other]? = some type')
    (same : type.name = type'.name) : position = other := by
  obtain ⟨inside, rfl⟩ := List.getElem?_eq_some_iff.mp present
  obtain ⟨inside', rfl⟩ := List.getElem?_eq_some_iff.mp present'
  have apart := List.pairwise_iff_getElem.mp (List.pairwise_map.mp distinct)
  rcases Nat.lt_trichotomy position other with before | same' | after
  · exact absurd same (apart _ _ inside inside' before)
  · exact same'
  · exact absurd same.symm (apart _ _ inside' inside after)

/-- The index has the position of the type of each name, and no others. -/
theorem lookup_index_eq_some_iff {name : String} {position : Nat} :
    schema.index.lookup name = some position ↔
      ∃ type, schema.types[position]? = some type ∧ type.name = name := by
  have of_lookup {other : Nat} (found : schema.index.lookup name = some other) :
      ∃ type, schema.types[other]? = some type ∧ type.name = name := by
    obtain ⟨before, after, parts, _⟩ := List.lookup_eq_some_iff.mp found
    refine mem_positions.mp (List.mem_reverse.mp ?_)
    change _ ∈ schema.index
    rw [parts]
    exact List.mem_append_right _ List.mem_cons_self
  refine ⟨of_lookup, fun ⟨type, present, named⟩ => ?_⟩
  cases found : schema.index.lookup name with
  | none =>
    have listed := List.mem_reverse.mpr (mem_positions.mpr ⟨type, present, named⟩)
    simpa using List.lookup_eq_none_iff.mp found _ listed
  | some other =>
    obtain ⟨type', present', named'⟩ := of_lookup found
    rw [position_unique distinct present' present (named'.trans named.symm)]

/-- **Looking up by the index is looking for the name.** -/
theorem get?_eq_index (name : String) :
    schema.get? name = (schema.index.lookup name).bind (schema.types[·]?) := by
  cases found : schema.index.lookup name with
  | some position =>
    obtain ⟨type, present, rfl⟩ := (lookup_index_eq_some_iff distinct).mp found
    obtain ⟨inside, isType⟩ := List.getElem?_eq_some_iff.mp present
    rw [Option.bind_some, present]
    refine List.find?_eq_some_iff_getElem.mpr
      ⟨beq_self_eq_true _, position, inside, isType, fun earlier before => ?_⟩
    have apart := List.pairwise_iff_getElem.mp (List.pairwise_map.mp distinct) _ _
      (Nat.lt_trans before inside) inside before
    rw [isType] at apart
    simpa using apart
  | none =>
    refine List.find?_eq_none.mpr fun type member same => ?_
    obtain ⟨position, present⟩ := List.mem_iff_getElem?.mp member
    have listed := (lookup_index_eq_some_iff distinct).mpr ⟨type, present, beq_iff_eq.mp same⟩
    rw [found] at listed
    cases listed

end Index

/-- The root type of an operation kind. -/
def rootType? (schema : Schema) (kind : OperationKind) : Option SchemaType :=
  (schema.roots.get? kind).bind schema.get?

/-- The name of the query root, or the one it would have by convention. -/
def queryTypeName (schema : Schema) : String :=
  (schema.roots.get? .query).getD OperationKind.query.conventionalRoot

/-- Whether a name is that of a root type. -/
def isRootType (schema : Schema) (name : String) : Bool :=
  schema.roots.names.contains name

/-- The kind of the type named inside a type reference. -/
def kindOf? (schema : Schema) (type : TypeRef) : Option TypeKind :=
  (schema.get? type.namedType).map (·.kind)

/-- The object types that implement an interface, in the order of the schema. -/
def implementations (schema : Schema) (interface : String) : List SchemaType :=
  schema.types.filter fun type => type.kind == .object && type.interfaces.contains interface

/-- The type that objects have where a type is declared: for an interface the first type that
implements it. -/
def runtimeType (schema : Schema) (declared : SchemaType) : SchemaType :=
  if declared.kind = .interface then
    ((schema.implementations declared.name).head?).getD declared
  else declared

end Schema

end TraversalQuery
