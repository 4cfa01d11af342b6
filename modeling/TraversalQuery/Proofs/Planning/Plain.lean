import TraversalQuery.Proofs.Planning.Clauses
import TraversalQuery.Proofs.Typing.Rules

/-!
# Plain inputs

The checks let some inputs pass that a filter cannot be read from: `null` in spite of a default, and
in the values of variables a single item in the place of a list. What has neither is plain. A
variable is plain if the value is that was provided for it, or else its default.
-/

namespace TraversalQuery

namespace TypeRef

/-- A type that forbids `null` where another one does. -/
def strictAt (type place : TypeRef) : TypeRef :=
  if place.isNonNull then type.strict else type

variable {type : TypeRef}

@[simp] theorem isNonNull_strict : type.strict.isNonNull = true := by
  cases type <;> rfl

@[simp] theorem nullable_strict : type.strict.nullable = type.nullable := by
  cases type <;> rfl

@[simp] theorem isList_strict : type.strict.isList = type.isList := by
  cases type <;> rfl

@[simp] theorem namedType_strict : type.strict.namedType = type.namedType := by
  cases type <;> rfl

@[simp] theorem itemType_strict : type.strict.itemType = type.itemType := by
  cases type <;> rfl

end TypeRef

namespace Schema

/-- The fields of the input type of a name. -/
def inputsOf (schema : Schema) (name : String) : List InputValue :=
  ((schema.get? name).map (·.inputFields)).getD []

/-- The inputs of a name are those of the input type of the name. -/
theorem inputsOf_of_body {schema : Schema} {name : String} {type : SchemaType}
    {declared : List InputValue} (found : schema.get? name = some type)
    (isInput : type.body = .input declared) : schema.inputsOf name = declared := by
  rw [inputsOf, found, Option.map_some, Option.getD_some, SchemaType.inputFields, isInput]

end Schema

namespace Json

mutual

/-- Whether a value has an array for every list, and `null` only where it may stand and is no
default's place. -/
def isPlain (schema : Schema) (type : TypeRef) : Json → Bool
  | .null => !type.isNonNull
  | .array items =>
    match type.nullable with
    | .list item => arePlain schema item items
    | _ => true
  | .object members =>
    !type.isList && arePlainMembers schema (schema.inputsOf type.namedType) members
  | .bool _ => !type.isList
  | .int _ => !type.isList
  | .float _ => !type.isList
  | .string _ => !type.isList

/-- Whether the items of an array are plain. -/
def arePlain (schema : Schema) (type : TypeRef) : List Json → Bool
  | [] => true
  | item :: rest => isPlain schema type item && arePlain schema type rest

/-- Whether the members of an object are plain where inputs of their names are declared. -/
def arePlainMembers (schema : Schema) (declared : List InputValue) : List (String × Json) → Bool
  | [] => true
  | (name, value) :: rest =>
    (declared.filter (·.name == name)).all (fun input => isPlain schema input.strictType value) &&
      arePlainMembers schema declared rest

end

end Json

namespace Literal

mutual

/-- Whether a literal has `null` only where it may stand and is no default's place, given which
variables may stand where. -/
def isPlain (schema : Schema) (clean : String → TypeRef → Bool) (type : TypeRef) : Literal → Bool
  | .reference name => clean name type
  | .null => !type.isNonNull
  | .list items => arePlain schema clean type.itemType items
  | .object fields => arePlainFields schema clean (schema.inputsOf type.namedType) fields
  | .int _ => true
  | .float _ => true
  | .string _ => true
  | .bool _ => true
  | .enumValue _ => true

/-- Whether the items of a list are plain. -/
def arePlain (schema : Schema) (clean : String → TypeRef → Bool) (type : TypeRef) :
    List Literal → Bool
  | [] => true
  | item :: rest => isPlain schema clean type item && arePlain schema clean type rest

/-- Whether the fields of an object are plain where inputs of their names are declared. -/
def arePlainFields (schema : Schema) (clean : String → TypeRef → Bool)
    (declared : List InputValue) : List (String × Literal) → Bool
  | [] => true
  | (name, value) :: rest =>
    (declared.filter (·.name == name)).all
        (fun input => isPlain schema clean input.strictType value) &&
      arePlainFields schema clean declared rest

end

end Literal

namespace VariableDefinition

/-- Whether what a variable stands for is plain where a type is expected: the value that is provided
for it, or else its default. -/
def isPlainAt (schema : Schema) (provided : Members) (place : TypeRef)
    (definition : VariableDefinition) : Bool :=
  match Members.get? definition.name provided with
  | some value => value.isPlain schema (definition.type.strictAt place)
  | none =>
    definition.default?.all (·.isPlain schema (fun _ _ => false) (definition.type.strictAt place))

/-- Whether the variable of a name is plain where a type is expected. -/
def arePlainAt (schema : Schema) (provided : Members) (definitions : List VariableDefinition)
    (name : String) (place : TypeRef) : Bool :=
  (definitions.find? (·.name == name)).any (·.isPlainAt schema provided place)

end VariableDefinition

variable {schema : Schema} {type : TypeRef} {value : Json} {members : Members}

namespace Json

/-- Items are plain if each of them is. -/
theorem arePlain_iff {items : List Json} :
    arePlain schema type items = true ↔ ∀ item ∈ items, item.isPlain schema type = true := by
  induction items with
  | nil => simp [arePlain]
  | cons item rest ih => rw [arePlain, Bool.and_eq_true, ih, List.forall_mem_cons]

/-- A plain object holds plain members. -/
theorem isPlain_of_arePlainMembers {declared : List InputValue}
    (plain : arePlainMembers schema declared members = true) {input : InputValue}
    (member : input ∈ declared) (held : Members.get? input.name members = some value) :
    value.isPlain schema input.strictType = true := by
  induction members with
  | nil => cases held
  | cons entry rest ih =>
    obtain ⟨name, first⟩ := entry
    obtain ⟨here, later⟩ := Bool.and_eq_true_iff.mp plain
    rw [Members.get?_cons] at held
    split at held
    · rename_i same
      obtain rfl := Option.some.inj held
      exact List.all_eq_true.mp here input (List.mem_filter.mpr ⟨member, by simp [same]⟩)
    · exact ih later held

/-- Where `null` is forbidden, other values are plain as elsewhere. -/
theorem isPlain_nonNull {inner : TypeRef} (proper : value ≠ .null) :
    value.isPlain schema (.nonNull inner) = value.isPlain schema inner := by
  cases value with
  | null => exact absurd rfl proper
  | _ => rfl

/-- Where `null` is forbidden, a plain value is any other one. -/
theorem isPlain_strict_iff :
    value.isPlain schema type.strict = true ↔ value ≠ .null ∧ value.isPlain schema type = true := by
  cases value <;> simp [isPlain]

end Json

namespace Literal

variable {clean : String → TypeRef → Bool} {literal : Literal}

/-- Items of a literal are plain if each of them is. -/
theorem arePlain_iff {items : List Literal} : arePlain schema clean type items = true ↔
    ∀ item ∈ items, item.isPlain schema clean type = true := by
  induction items with
  | nil => simp [arePlain]
  | cons item rest ih => rw [arePlain, Bool.and_eq_true, ih, List.forall_mem_cons]

/-- A plain literal of an object holds plain fields. -/
theorem isPlain_of_arePlainFields {declared : List InputValue} {fields : List (String × Literal)}
    (plain : arePlainFields schema clean declared fields = true) {input : InputValue}
    (member : input ∈ declared) (written : (input.name, literal) ∈ fields) :
    literal.isPlain schema clean input.strictType = true := by
  induction fields with
  | nil => cases written
  | cons field rest ih =>
    obtain ⟨here, later⟩ := Bool.and_eq_true_iff.mp plain
    rcases List.mem_cons.mp written with rfl | after
    · exact List.all_eq_true.mp here input (List.mem_filter.mpr ⟨member, by simp⟩)
    · exact ih later after

/-- To a literal that says what it is it makes no difference whether `null` may stand there. -/
theorem isPlain_strict (isValue : literal.IsValue) :
    literal.isPlain schema clean type.strict = literal.isPlain schema clean type := by
  cases literal with
  | reference name => exact isValue.elim
  | null => exact isValue.elim
  | list items => simp [isPlain]
  | object fields => simp [isPlain]
  | _ => rfl

/-- Where `null` is forbidden, literals of other values are plain as elsewhere. -/
theorem isPlain_nonNull {inner : TypeRef} (isValue : literal.IsValue) :
    literal.isPlain schema clean (.nonNull inner) = literal.isPlain schema clean inner := by
  cases literal with
  | reference name => exact isValue.elim
  | null => exact isValue.elim
  | _ => rfl

/-- It makes no difference to a single item either whether it is to be put into a list. -/
theorem isPlain_single {item : TypeRef} (isValue : literal.IsValue) (isSingle : ¬ literal.IsList) :
    literal.isPlain schema clean (.list item) = literal.isPlain schema clean item := by
  cases literal with
  | reference name => exact isValue.elim
  | null => exact isValue.elim
  | list items => exact absurd trivial isSingle
  | _ => rfl

end Literal

end TraversalQuery
