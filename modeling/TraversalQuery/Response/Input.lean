import TraversalQuery.Json.Printer
import TraversalQuery.Typing.Literal

/-!
# Input values

The values of variables and arguments as JSON. A value given for a variable has to fit the type of
the variable. A literal becomes the JSON it writes, with variables replaced by their values, single
values put into the lists they stand for, and defaults filled in.

A default can leave out fields that have defaults themselves, and nothing keeps these from leading
back to it. Then it has no value: whoever reads it never comes to an end. So it is asked of defaults
whether they settle before their values are.
-/

namespace TraversalQuery

namespace Json

/-- Whether a built-in scalar admits a value. Scalars that are not built in admit every value. -/
def fitsScalar (scalar : String) (value : Json) : Bool :=
  match scalar, value with
  | "Int", .int value => Typing.fitsInt value
  | "Int", _ => false
  | "Float", .int _ => true
  | "Float", .float _ => true
  | "Float", _ => false
  | "String", .string _ => true
  | "String", _ => false
  | "Boolean", .bool _ => true
  | "Boolean", _ => false
  | "ID", .string _ => true
  | "ID", .int value => decide (value ≤ Nat.pow 2 63 - 1)
  | "ID", _ => false
  | _, _ => true

/-- Whether a type admits a value as a whole; input types are looked at field by field. -/
def fitsWhole (schema : Schema) (name : String) (value : Json) : Bool :=
  match schema.get? name with
  | none => false
  | some type =>
    match type.body, value with
    | .scalar, value => fitsScalar name value
    | .enum values, .string text => values.contains text
    | _, _ => false

mutual

/-- Whether a value fits a type. A value that is no list fits a list type when it fits the type of
the items. -/
def fits (schema : Schema) (type : TypeRef) : Json → Bool
  | .null => !type.isNonNull
  | .array items =>
    match type.nullable with
    | .list item => itemsFit schema item items
    | _ => fitsWhole schema type.namedType (.array items)
  | .object members =>
    match schema.get? type.namedType with
    | some ⟨_, .input declared, _⟩ =>
      membersFit schema declared members &&
        declared.all fun input =>
          !input.isRequired || (Members.names members).contains input.name
    | _ => fitsWhole schema type.namedType (.object members)
  | .bool value => fitsWhole schema type.namedType (.bool value)
  | .int value => fitsWhole schema type.namedType (.int value)
  | .float value => fitsWhole schema type.namedType (.float value)
  | .string text => fitsWhole schema type.namedType (.string text)

/-- Whether all items of an array fit a type. -/
def itemsFit (schema : Schema) (type : TypeRef) : List Json → Bool
  | [] => true
  | item :: rest => fits schema type item && itemsFit schema type rest

/-- Whether every member of an object is declared and fits what is declared of its name. -/
def membersFit (schema : Schema) (declared : List InputValue) :
    List (String × Json) → Bool
  | [] => true
  | (name, value) :: rest =>
    declared.any (·.name == name) &&
      (declared.filter (·.name == name)).all (fun input => fits schema input.type value) &&
      membersFit schema declared rest

end

/-- A value inside as many arrays as a type has lists around its name. -/
def inLists : TypeRef → Json → Json
  | .named _, value => value
  | .nonNull inner, value => inLists inner value
  | .list item, value => .array [inLists item value]

end Json

namespace Input

/-- How an input that is given no value gets one. -/
abbrev Default := InputValue → Option Json

/-- The value of each declared input: the given one, or else the default. -/
def declaredMembers (default : Default) (given : String → TypeRef → Option Json) :
    List InputValue → Members → Members
  | [], members => members
  | input :: rest, members =>
    match (given input.name input.type).or (default input) with
    | none => declaredMembers default given rest members
    | some value => declaredMembers default given rest (Members.insert input.name value members)

/-- What the first of the named values with the given name comes to. -/
def lookup {α : Type} (name : String) (type : TypeRef) :
    List (String × (TypeRef → Option α)) → Option α
  | [] => none
  | (other, value) :: rest => if name = other then value type else lookup name type rest

mutual

/-- The JSON of a literal where a type is expected; a variable without a value has none. -/
def ofLiteral (schema : Schema) (values : Members) (default : Default) :
    Literal → TypeRef → Option Json
  | .reference name, _ => Members.get? name values
  | .null, _ => some .null
  | .list items, type =>
    some (.array (ofItems schema values default items type.itemType))
  | .object fields, type =>
    let declared := ((schema.get? type.namedType).map (·.inputFields)).getD []
    let given := ofFields schema values default fields
    some <| Json.inLists type <| .object <|
      declaredMembers default (fun name type => lookup name type given) declared []
  | .int value, type => some (Json.inLists type (.int value))
  | .float value, type => some (Json.inLists type (.ofFloat value))
  | .string text, type => some (Json.inLists type (.string text))
  | .bool value, type => some (Json.inLists type (.bool value))
  | .enumValue name, type => some (Json.inLists type (.string name))

/-- The JSON of the items of a list; a variable without a value becomes `null`. -/
def ofItems (schema : Schema) (values : Members) (default : Default) :
    List Literal → TypeRef → List Json
  | [], _ => []
  | item :: rest, type =>
    (ofLiteral schema values default item type).getD .null ::
      ofItems schema values default rest type

/-- The fields of an object, each with its JSON for every type that could be expected. -/
def ofFields (schema : Schema) (values : Members) (default : Default) :
    List (String × Literal) → List (String × (TypeRef → Option Json))
  | [] => []
  | (name, value) :: rest =>
    (name, ofLiteral schema values default value) :: ofFields schema values default rest

end

/-- The inputs among those declared that get their defaults, and those that do so in the values that
are given for the others. -/
def lackingOf (given : String → TypeRef → Option (List InputValue)) (declared : List InputValue) :
    List InputValue :=
  declared.flatMap fun input => (given input.name input.type).getD [input]

mutual

/-- The inputs that get their defaults when a literal is read where a type is expected: those that
are declared of the objects in it and that it does not give. A variable without a value gives
nothing. -/
def lacking (schema : Schema) (values : Members) :
    Literal → TypeRef → Option (List InputValue)
  | .reference name, _ => (Members.get? name values).map fun _ => []
  | .list items, type => some (lackingInItems schema values items type.itemType)
  | .object fields, type =>
    let declared := ((schema.get? type.namedType).map (·.inputFields)).getD []
    let given := lackingInFields schema values fields
    some (lackingOf (fun name type => lookup name type given) declared)
  | _, _ => some []

/-- The inputs that get their defaults in the items of a list. -/
def lackingInItems (schema : Schema) (values : Members) :
    List Literal → TypeRef → List InputValue
  | [], _ => []
  | item :: rest, type =>
    (lacking schema values item type).getD [] ++ lackingInItems schema values rest type

/-- The fields of an object, each with the inputs that get their defaults in it, for every type that
could be expected. -/
def lackingInFields (schema : Schema) (values : Members) :
    List (String × Literal) → List (String × (TypeRef → Option (List InputValue)))
  | [] => []
  | (name, value) :: rest =>
    (name, lacking schema values value) :: lackingInFields schema values rest

end

/-- The inputs that get their defaults when the default of an input is read. -/
def leadsTo (schema : Schema) (values : Members) (input : InputValue) : List InputValue :=
  (input.default?.bind fun literal => lacking schema values literal input.type).getD []

/-- Whether the default of an input is read within so many rounds, one for the defaults that it
leads to, one for those that they lead to, and so on. -/
def settlesWithin (schema : Schema) (values : Members) : Nat → InputValue → Bool
  | 0, _ => false
  | rounds + 1, input =>
    (leadsTo schema values input).all (settlesWithin schema values rounds)

/-- The JSON of a declared default, when it is read within so many rounds. -/
def defaultOf (schema : Schema) (values : Members) : Nat → Default
  | 0, _ => none
  | rounds + 1, input =>
    match input.default? with
    | none => none
    | some literal =>
      ofLiteral schema values (defaultOf schema values rounds) literal input.type

/-- The number of input fields of a schema, and one more for the argument or variable that comes
before them. Where defaults do not lead to one another without end, they lead from no field back to
itself, so no chain of them is longer. -/
def defaultRounds (schema : Schema) : Nat :=
  schema.types.foldr (fun type total => type.inputFields.length + total) 0 + 1

/-- Whether the defaults of inputs are ever read. They are not if they lead back to themselves. -/
def settle (schema : Schema) (values : Members) (inputs : List InputValue) : Bool :=
  inputs.all (settlesWithin schema values (defaultRounds schema))

/-- The JSON of a declared default that settles. -/
def default (schema : Schema) (values : Members) : Default :=
  defaultOf schema values (defaultRounds schema)

/-- The JSON of a literal where a type is expected. -/
def coerce (schema : Schema) (values : Members) (literal : Literal) (type : TypeRef) :
    Option Json :=
  ofLiteral schema values (default schema values) literal type

/-- The arguments of a selected field, for the arguments it declares. -/
def arguments (schema : Schema) (values : Members) (declared : List InputValue)
    (field : Field) : Members :=
  declaredMembers (default schema values)
    (fun name type => (field.argument? name).bind fun literal =>
      coerce schema values literal type)
    declared []

/-- The inputs that get their defaults when the arguments of a selected field are read. -/
def lackingArguments (schema : Schema) (values : Members) (declared : List InputValue)
    (field : Field) : List InputValue :=
  lackingOf
    (fun name type => (field.argument? name).bind fun literal =>
      lacking schema values literal type)
    declared

/-- The inputs that get their defaults when the default of a variable is read, if it is. -/
def lackingVariable (schema : Schema) (provided : Members) (definition : VariableDefinition) :
    List InputValue :=
  match Members.get? definition.name provided, definition.default? with
  | none, some literal => (lacking schema [] literal definition.type).getD []
  | _, _ => []

/-- Whether the defaults of variables are ever read that are not given values. -/
def variablesSettle (schema : Schema) (definitions : List VariableDefinition)
    (provided : Members) : Bool :=
  definitions.all fun definition => settle schema [] (lackingVariable schema provided definition)

/-- What a variable stands for, given the values of a request: a value, nothing, or a problem. -/
def variableValue (schema : Schema) (provided : Members) (definition : VariableDefinition) :
    Except Problem (Option Json) :=
  let path := "$" ++ definition.name
  match Members.get? definition.name provided with
  | some value =>
    if value.fits schema definition.type then .ok (some value)
    else .error ⟨.unexpectedValue definition.type value.compact, path⟩
  | none =>
    match definition.default? with
    | some literal => .ok (coerce schema [] literal definition.type)
    | none =>
      if definition.type.isNonNull then .error ⟨.missingVariable definition.name, path⟩
      else .ok none

/-- The values of variables, together with the problems of those that have none they could have. -/
def variableValues (schema : Schema) (provided : Members) :
    List VariableDefinition → Members → List Problem × Members
  | [], values => ([], values)
  | definition :: rest, values =>
    match variableValue schema provided definition with
    | .error problem =>
      let (problems, values) := variableValues schema provided rest values
      (problem :: problems, values)
    | .ok none => variableValues schema provided rest values
    | .ok (some value) =>
      variableValues schema provided rest (Members.insert definition.name value values)

/-- The values of the variables of an operation, unless one of them has a problem. -/
def operationValues (schema : Schema) (definitions : List VariableDefinition) (provided : Members) :
    Except (List Problem) Members :=
  match variableValues schema provided definitions [] with
  | ([], values) => .ok values
  | (problems, _) => .error problems

end Input

end TraversalQuery
